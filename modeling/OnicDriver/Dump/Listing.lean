import OnicDriver.Dump.Queue
import OnicDriver.Resource.Active
import Mathlib.Data.List.Nodup

/-!
# The list of queues

`qdma_queue_list` goes over the three arrays of queues, in each over as many entries as the resource
manager counts active queues of the type.
-/

namespace OnicDriver.Dump

open Lib Queue Resource

/-- The queues of a device: three arrays of the same size. -/
structure QdmaDev where
  qmax : ℕ
  descq : DevQType → List Descq
  length_descq : ∀ t, (descq t).length = qmax

/-- The text so far and the queues that have a record in it. -/
structure Listing where
  text : Cursor
  records : List (DevQType × ℕ)

/-- Why the listing stops early: the buffer is full, or an entry beyond the array is read. -/
inductive Stop
  | truncated (l : Listing)
  | outOfBounds (l : Listing)

section

variable (fmtPtr fmtHex : ℕ → String) (limit : ℕ)

/-- The record of the `i`-th queue of an array, if it is not disabled. -/
def Listing.add (type : DevQType) (i : ℕ) (q : Descq) (l : Listing) : Listing :=
  if q.qState ≠ .disabled then
    { text := qdmaDescqDump fmtPtr fmtHex limit q l.text, records := l.records ++ [(type, i)] }
  else l

/-- The loop over an array from the entry `i` on. -/
def listLoop (type : DevQType) (qs : List Descq) : ℕ → ℕ → Listing → Except Stop Listing
  | 0, _, l => .ok l
  | n + 1, i, l =>
    match qs[i]? with
    | none => .error (.outOfBounds l)
    | some q =>
      let l := l.add fmtPtr fmtHex limit type i q
      if limit ≤ l.text.cur then .error (.truncated l) else listLoop type qs n (i + 1) l

/-- The first line of the list. -/
def countsText (count : DevQType → ℕ) : List Char :=
  ("H2C Q: " ++ toString (count .h2c) ++ ", C2H Q: " ++ toString (count .c2h) ++ ", CMPT Q " ++
    toString (count .cmpt) ++ ".\n").toList

/-- The loops over the arrays, in each over as many entries as are counted. -/
def listArrays (count : DevQType → ℕ) (dev : QdmaDev) (l : Listing) : Except Stop Listing := do
  let l ← listLoop fmtPtr fmtHex limit .h2c (dev.descq .h2c) (count .h2c) 0 l
  let l ← listLoop fmtPtr fmtHex limit .c2h (dev.descq .c2h) (count .c2h) 0 l
  listLoop fmtPtr fmtHex limit .cmpt (dev.descq .cmpt) (count .cmpt) 0 l

/-- The first line and the loops over the arrays. -/
def listQueues (count : DevQType → ℕ) (dev : QdmaDev) (b : TextBuffer) : Except Stop Listing :=
  let l := { text := Cursor.print limit (countsText count) { buf := b, cur := 0 }, records := [] }
  if limit ≤ l.text.cur then .error (.truncated l) else listArrays fmtPtr fmtHex limit count dev l

/-- What a call leaves: the return value, unless it has read beyond an array. -/
structure ListResult where
  ret : Option ℤ
  buf : TextBuffer
  records : List (DevQType × ℕ)

/-- The end of `qdma_queue_list`. -/
def ListResult.ofListing : Except Stop Listing → ListResult
  | .ok l => { ret := some l.text.cur, buf := l.text.buf, records := l.records }
  | .error (.truncated l) =>
    { ret := some (-(l.text.cur : ℤ)), buf := l.text.buf.store 0 [nul], records := l.records }
  | .error (.outOfBounds l) => { ret := none, buf := l.text.buf, records := l.records }

/-- The counts of the resource manager, which may be error codes, as unsigned numbers. -/
def activeCount (rm : ResourceState) (dmaDeviceIndex funcId : ℕ) (t : DevQType) : ℕ :=
  u32 (qdmaGetDeviceActiveQueueCount rm dmaDeviceIndex funcId t)

/-- `qdma_queue_list` of a device with queues, into a buffer of `limit` bytes. -/
def qdmaQueueList (rm : ResourceState) (dmaDeviceIndex funcId : ℕ) (dev : QdmaDev)
    (b : TextBuffer) : ListResult :=
  if limit = 0 then { ret := some (-EINVAL), buf := b, records := [] }
  else .ofListing (listQueues fmtPtr fmtHex limit (activeCount rm dmaDeviceIndex funcId) dev b)

/-! ## What a list is made of -/

/-- What is listed of a queue: nothing if it is disabled. -/
def listedText (q : Descq) : List Char :=
  if q.qState ≠ .disabled then q.record fmtPtr fmtHex else []

/-- The records of the queues of an array that are not disabled. -/
def arrayText (qs : List Descq) : List Char := qs.flatMap (listedText fmtPtr fmtHex)

/-- The entries from `i` on, `n` of them, that are not disabled. -/
def recorded (type : DevQType) (qs : List Descq) (i n : ℕ) : List (DevQType × ℕ) :=
  ((List.range' i n).filter fun j => (qs[j]?).any (·.qState ≠ .disabled)).map (type, ·)

/-- The text of all queues that are not disabled. -/
def listing (count : DevQType → ℕ) (dev : QdmaDev) : List Char :=
  countsText count ++ (arrayText fmtPtr fmtHex (dev.descq .h2c) ++
    (arrayText fmtPtr fmtHex (dev.descq .c2h) ++ arrayText fmtPtr fmtHex (dev.descq .cmpt)))

/-- The records of the queues that the loops come to, if there is room for them. -/
def reachedText (count : DevQType → ℕ) (dev : QdmaDev) : List Char :=
  arrayText fmtPtr fmtHex ((dev.descq .h2c).take (count .h2c)) ++
    if count .h2c ≤ dev.qmax then
      arrayText fmtPtr fmtHex ((dev.descq .c2h).take (count .c2h)) ++
        if count .c2h ≤ dev.qmax then
          arrayText fmtPtr fmtHex ((dev.descq .cmpt).take (count .cmpt))
        else []
    else []

/-- The first line with the records of the queues that the loops come to. -/
def reached (count : DevQType → ℕ) (dev : QdmaDev) : List Char :=
  countsText count ++ reachedText fmtPtr fmtHex count dev

/-! ## The loops -/

/-- How a part of the list ends that is to bring the text to `v` and the records to `records`: it
goes well, the text does not fit, or an entry beyond an array is read. -/
def Ends (v : List Char) (inRange : Prop) (records : List (DevQType × ℕ)) :
    Except Stop Listing → Prop
  | .ok l => inRange ∧ l.text.Prints limit v ∧ l.text.cur < limit ∧ l.records = records
  | .error (.truncated l) => limit ≤ v.length ∧ limit ≤ l.text.cur ∧ l.text.buf.top ≤ limit
  | .error (.outOfBounds l) => ¬ inRange ∧ v.length < limit ∧ l.text.buf.top ≤ limit

variable {fmtPtr fmtHex limit}

/-- The rule of parts that follow each other. -/
theorem Ends.bind {v w : List Char} {p p' : Prop} [Decidable p]
    {records records' : List (DevQType × ℕ)} {r : Except Stop Listing}
    (h : Ends limit v p records r) {f : Listing → Except Stop Listing}
    (hf : ∀ l, l.text.Prints limit v → l.text.cur < limit → l.records = records →
      Ends limit (v ++ w) p' records' (f l)) :
    Ends limit (v ++ if p then w else []) (p ∧ p') records' (r >>= f) := by
  match r with
  | .ok l =>
    obtain ⟨hp, hprints, hlt, hrecords⟩ := h
    have hrest := hf l hprints hlt hrecords
    rw [if_pos hp]
    change Ends limit (v ++ w) (p ∧ p') records' (f l)
    rwa [show (p ∧ p') = p' from propext (and_iff_right hp)]
  | .error (.truncated l) =>
    refine ⟨?_, h.2⟩
    rw [List.length_append]
    exact h.1.trans (Nat.le_add_right _ _)
  | .error (.outOfBounds l) =>
    refine ⟨fun hall => h.1 hall.1, ?_, h.2.2⟩
    rw [if_neg h.1, List.append_nil]
    exact h.2.1

section Loop

variable {type : DevQType} {qs : List Descq} {n i : ℕ} {l : Listing} {t : List Char}

theorem Listing.add_prints (h : l.text.Prints limit t) (hlt : l.text.cur < limit) (q : Descq) :
    (l.add fmtPtr fmtHex limit type i q).text.Prints limit
      (t ++ listedText fmtPtr fmtHex q) := by
  unfold Listing.add listedText
  split_ifs
  · exact qdmaDescqDump_spec q h hlt
  · rw [List.append_nil]
    exact h

theorem Listing.add_records (hi : i < qs.length) (l : Listing) :
    (l.add fmtPtr fmtHex limit type i qs[i]).records = l.records ++ recorded type qs i 1 := by
  unfold Listing.add recorded
  rw [List.range'_one, List.filter_cons, List.getElem?_eq_getElem hi]
  split_ifs with henabled hany hany
  · rfl
  · exact absurd (by simpa using henabled) hany
  · exact absurd (by simpa using hany) henabled
  · exact (List.append_nil _).symm

theorem recorded_succ (type : DevQType) (qs : List Descq) (i n : ℕ) :
    recorded type qs i (n + 1) = recorded type qs i 1 ++ recorded type qs (i + 1) n := by
  unfold recorded
  rw [← List.map_append, ← List.filter_append, List.range'_one, List.singleton_append,
    List.range'_succ]

/-- A run of a loop over an array. -/
theorem listLoop_ends (hi : i ≤ qs.length) (h : l.text.Prints limit t)
    (hlt : l.text.cur < limit) :
    Ends limit (t ++ arrayText fmtPtr fmtHex ((qs.drop i).take n)) (n ≤ qs.length - i)
      (l.records ++ recorded type qs i n) (listLoop fmtPtr fmtHex limit type qs n i l) := by
  induction n generalizing i l t with
  | zero =>
    rw [List.take_zero, arrayText, List.flatMap_nil, List.append_nil]
    exact ⟨Nat.zero_le _, h, hlt, (List.append_nil _).symm⟩
  | succ n ih =>
    rw [listLoop]
    rcases Nat.lt_or_ge i qs.length with hin | hout
    · have hadd : (l.add fmtPtr fmtHex limit type i qs[i]).text.Prints limit _ :=
        Listing.add_prints h hlt qs[i]
      rw [List.getElem?_eq_getElem hin, List.drop_eq_getElem_cons hin, List.take_succ_cons,
        arrayText, List.flatMap_cons, ← List.append_assoc, ← arrayText]
      dsimp only
      split_ifs with hfull
      · refine ⟨?_, hfull, hadd.top⟩
        rw [List.length_append]
        exact Nat.le_add_right_of_le (hadd.le_length hfull)
      · have hnext : i + 1 ≤ qs.length := hin
        have hrest := ih hnext hadd (Nat.not_le.mp hfull)
        rw [Listing.add_records hin, List.append_assoc l.records, ← recorded_succ] at hrest
        rwa [show (n + 1 ≤ qs.length - i) = (n ≤ qs.length - (i + 1)) from propext (by omega)]
    · rw [List.getElem?_eq_none hout, List.drop_of_length_le hout, List.take_nil, arrayText,
        List.flatMap_nil, List.append_nil]
      exact ⟨by omega, h.length_lt hlt, h.top⟩

end Loop

/-- A loop over one of the arrays of a device. -/
theorem listLoop_array {dev : QdmaDev} {type : DevQType} {n : ℕ} {l : Listing} {t : List Char}
    (h : l.text.Prints limit t) (hlt : l.text.cur < limit) :
    Ends limit (t ++ arrayText fmtPtr fmtHex ((dev.descq type).take n)) (n ≤ dev.qmax)
      (l.records ++ recorded type (dev.descq type) 0 n)
      (listLoop fmtPtr fmtHex limit type (dev.descq type) n 0 l) := by
  have hloop : Ends limit _ _ _ (listLoop fmtPtr fmtHex limit type (dev.descq type) n 0 l) :=
    listLoop_ends (Nat.zero_le (dev.descq type).length) h hlt
  rwa [List.drop_zero, Nat.sub_zero, dev.length_descq] at hloop

/-- The queues that have a record where all the loops come to their ends. -/
def reachedRecords (count : DevQType → ℕ) (dev : QdmaDev) : List (DevQType × ℕ) :=
  recorded .h2c (dev.descq .h2c) 0 (count .h2c) ++
    recorded .c2h (dev.descq .c2h) 0 (count .c2h) ++
      recorded .cmpt (dev.descq .cmpt) 0 (count .cmpt)

/-- The loops come to the texts of the queues that they reach, one after the other. -/
theorem listArrays_ends (count : DevQType → ℕ) (dev : QdmaDev) {l : Listing} {t : List Char}
    (h : l.text.Prints limit t) (hlt : l.text.cur < limit) (hrecords : l.records = []) :
    Ends limit (t ++ reachedText fmtPtr fmtHex count dev)
      (count .h2c ≤ dev.qmax ∧ count .c2h ≤ dev.qmax ∧ count .cmpt ≤ dev.qmax)
      (reachedRecords count dev) (listArrays fmtPtr fmtHex limit count dev l) := by
  unfold listArrays reachedText
  rw [← List.append_assoc]
  apply (listLoop_array h hlt).bind
  intro l h hlt hh2c
  rw [← List.append_assoc]
  apply (listLoop_array h hlt).bind
  intro l h hlt hc2h
  rw [hh2c, hrecords, List.nil_append] at hc2h
  rw [reachedRecords, ← hc2h]
  exact listLoop_array h hlt

theorem listQueues_ends (count : DevQType → ℕ) (dev : QdmaDev) {b : TextBuffer}
    (htop : b.top ≤ limit) (hlimit : 0 < limit) :
    Ends limit (reached fmtPtr fmtHex count dev)
      (count .h2c ≤ dev.qmax ∧ count .c2h ≤ dev.qmax ∧ count .cmpt ≤ dev.qmax)
      (reachedRecords count dev) (listQueues fmtPtr fmtHex limit count dev b) := by
  have hcounts : (Cursor.print limit (countsText count) { buf := b, cur := 0 }).Prints limit
      (countsText count) :=
    Cursor.prints_print htop rfl hlimit TextBuffer.Holds.nil (countsText count)
  unfold listQueues reached
  dsimp only
  split_ifs with hfull
  · refine ⟨?_, hfull, hcounts.top⟩
    rw [List.length_append]
    exact Nat.le_add_right_of_le (hcounts.le_length hfull)
  · exact listArrays_ends count dev hcounts (Nat.not_le.mp hfull) rfl

/-! ## Complete lists -/

/-- Each queue that is not disabled has one record, and no other one has. -/
def EachOnce (dev : QdmaDev) (records : List (DevQType × ℕ)) : Prop :=
  records.Nodup ∧
    ∀ t i, (t, i) ∈ records ↔ ∃ q, (dev.descq t)[i]? = some q ∧ q.qState ≠ .disabled

/-- A call that lists all queues with the given text, in a buffer of `limit` bytes: it reads within
the arrays and writes within the buffer. A text that fits stands there, with a record for each
queue, and if the text does not fit, a negative number is returned. -/
structure ListsAll (limit : ℕ) (dev : QdmaDev) (text : List Char) (r : ListResult) : Prop where
  inside : r.buf.top ≤ limit
  bounds : r.ret ≠ none
  whole : text.length < limit →
    r.ret = some (text.length : ℤ) ∧ r.buf.Holds 0 (text ++ [nul]) ∧ EachOnce dev r.records
  cut : limit ≤ text.length → ∃ ret < 0, r.ret = some ret

/-- No count is beyond the arrays, and the queues from the count on are disabled. -/
def Counted (count : DevQType → ℕ) (dev : QdmaDev) : Prop :=
  ∀ t, count t ≤ dev.qmax ∧
    ∀ i q, count t ≤ i → (dev.descq t)[i]? = some q → q.qState = .disabled

section Complete

variable {count : DevQType → ℕ} {dev : QdmaDev}

theorem mem_recorded {type t : DevQType} {qs : List Descq} {n i : ℕ} :
    (t, i) ∈ recorded type qs 0 n ↔
      t = type ∧ i < n ∧ ∃ q, qs[i]? = some q ∧ q.qState ≠ .disabled := by
  unfold recorded
  rw [List.mem_map]
  constructor
  · rintro ⟨j, hj, heq⟩
    cases heq
    obtain ⟨hrange, hany⟩ := List.mem_filter.mp hj
    rw [List.mem_range'_1] at hrange
    exact ⟨rfl, by omega, by simpa [Option.any_eq_true] using hany⟩
  · rintro ⟨rfl, hi, hq⟩
    refine ⟨i, List.mem_filter.mpr ⟨?_, by simpa [Option.any_eq_true] using hq⟩, rfl⟩
    rw [List.mem_range'_1]
    omega

theorem nodup_recorded (type : DevQType) (qs : List Descq) (n : ℕ) :
    (recorded type qs 0 n).Nodup := by
  unfold recorded
  apply List.Nodup.map (fun i j h => (Prod.mk.inj h).2)
  exact (List.nodup_range').filter _

theorem mem_reachedRecords {t : DevQType} {i : ℕ} :
    (t, i) ∈ reachedRecords count dev ↔
      i < count t ∧ ∃ q, (dev.descq t)[i]? = some q ∧ q.qState ≠ .disabled := by
  unfold reachedRecords
  rw [List.mem_append, List.mem_append, mem_recorded, mem_recorded, mem_recorded]
  cases t <;> simp

theorem nodup_reachedRecords (count : DevQType → ℕ) (dev : QdmaDev) :
    (reachedRecords count dev).Nodup := by
  have htype : ∀ {type type' : DevQType} {qs qs' : List Descq} {n n' : ℕ}, type ≠ type' →
      List.Disjoint (recorded type qs 0 n) (recorded type' qs' 0 n') := by
    rintro type type' qs qs' n n' hne ⟨t, i⟩ hmem hmem'
    exact hne ((mem_recorded.mp hmem).1.symm.trans (mem_recorded.mp hmem').1)
  unfold reachedRecords
  apply List.Nodup.append
  · exact (nodup_recorded _ _ _).append (nodup_recorded _ _ _) (htype (by decide))
  · exact nodup_recorded _ _ _
  · rw [List.disjoint_append_left]
    exact ⟨htype (by decide), htype (by decide)⟩

theorem arrayText_take_add_drop (qs : List Descq) (n : ℕ) :
    arrayText fmtPtr fmtHex qs =
      arrayText fmtPtr fmtHex (qs.take n) ++ arrayText fmtPtr fmtHex (qs.drop n) := by
  unfold arrayText
  rw [← List.flatMap_append, List.take_append_drop]

/-- The queues that the loops come to are some of all queues. -/
theorem reached_length_le (count : DevQType → ℕ) (dev : QdmaDev) :
    (reached fmtPtr fmtHex count dev).length ≤ (listing fmtPtr fmtHex count dev).length := by
  have htake : ∀ (qs : List Descq) (n : ℕ), (arrayText fmtPtr fmtHex (qs.take n)).length ≤
      (arrayText fmtPtr fmtHex qs).length := by
    intro qs n
    rw [arrayText_take_add_drop qs n, List.length_append]
    exact Nat.le_add_right _ _
  have hh2c := htake (dev.descq .h2c) (count .h2c)
  have hc2h := htake (dev.descq .c2h) (count .c2h)
  have hcmpt := htake (dev.descq .cmpt) (count .cmpt)
  unfold reached reachedText listing
  generalize countsText count = head
  split_ifs <;> simp only [List.length_append, List.length_nil] <;> omega

/-- Where the counts are those of the queues, all queues are reached. -/
theorem Counted.reached_eq (h : Counted count dev) :
    reached fmtPtr fmtHex count dev = listing fmtPtr fmtHex count dev := by
  have htake : ∀ t, arrayText fmtPtr fmtHex ((dev.descq t).take (count t)) =
      arrayText fmtPtr fmtHex (dev.descq t) := by
    intro t
    have hnone : arrayText fmtPtr fmtHex ((dev.descq t).drop (count t)) = [] := by
      refine List.flatMap_eq_nil_iff.mpr fun q hq => ?_
      obtain ⟨i, hi, hget⟩ := List.getElem_of_mem hq
      rw [List.getElem_drop] at hget
      have hdisabled := (h t).2 (count t + i) q (Nat.le_add_right _ _)
        (hget ▸ List.getElem?_eq_getElem _)
      exact if_neg (not_not_intro hdisabled)
    rw [arrayText_take_add_drop (dev.descq t) (count t), hnone, List.append_nil]
  unfold reached reachedText listing
  rw [if_pos (h .h2c).1, if_pos (h .c2h).1, htake, htake, htake]

theorem Counted.eachOnce (h : Counted count dev) : EachOnce dev (reachedRecords count dev) := by
  refine ⟨nodup_reachedRecords count dev, fun t i => mem_reachedRecords.trans ?_⟩
  apply and_iff_right_of_imp
  rintro ⟨q, hq, henabled⟩
  by_contra hout
  exact henabled ((h t).2 i q (Nat.not_lt.mp hout) hq)

theorem Counted.inRange (h : Counted count dev) :
    count .h2c ≤ dev.qmax ∧ count .c2h ≤ dev.qmax ∧ count .cmpt ≤ dev.qmax :=
  ⟨(h .h2c).1, (h .c2h).1, (h .cmpt).1⟩

/-- Where the loops come to their ends within the arrays and each queue has its record, the counts
are those of the queues. -/
theorem counted_of_eachOnce
    (hrange : count .h2c ≤ dev.qmax ∧ count .c2h ≤ dev.qmax ∧ count .cmpt ≤ dev.qmax)
    (honce : EachOnce dev (reachedRecords count dev)) : Counted count dev := by
  intro t
  refine ⟨?_, fun i q hi hq => ?_⟩
  · cases t
    · exact hrange.1
    · exact hrange.2.1
    · exact hrange.2.2
  · by_contra henabled
    have hmem := (honce.2 t i).mpr ⟨q, hq, henabled⟩
    exact absurd (mem_reachedRecords.mp hmem).1 (Nat.not_lt.mpr hi)

/-- What a listing that ends well leaves is a complete list exactly if the counts are those of the
queues or the buffer is full. -/
theorem listsAll_iff_of_ends {r : Except Stop Listing}
    (h : Ends limit (reached fmtPtr fmtHex count dev)
      (count .h2c ≤ dev.qmax ∧ count .c2h ≤ dev.qmax ∧ count .cmpt ≤ dev.qmax)
      (reachedRecords count dev) r) (hlimit : 0 < limit) :
    ListsAll limit dev (listing fmtPtr fmtHex count dev) (.ofListing r) ↔
      Counted count dev ∨ limit ≤ (reached fmtPtr fmtHex count dev).length := by
  have hle : (reached fmtPtr fmtHex count dev).length ≤ (listing fmtPtr fmtHex count dev).length :=
    reached_length_le count dev
  match r with
  | .ok l =>
    obtain ⟨hrange, hprints, hlt, hrecords⟩ := h
    have hfit := hprints.length_lt hlt
    obtain ⟨hcur, hholds⟩ := hprints.fits hfit
    constructor
    · intro hall
      left
      rcases Nat.lt_or_ge (listing fmtPtr fmtHex count dev).length limit with hwhole | hcut
      · exact counted_of_eachOnce hrange (hrecords ▸ (hall.whole hwhole).2.2)
      · obtain ⟨ret, hneg, hret⟩ := hall.cut hcut
        have hret : (l.text.cur : ℤ) = ret := Option.some.inj hret
        omega
    · rintro (hcounted | hfull)
      · rw [← hcounted.reached_eq]
        have honce := hcounted.eachOnce
        rw [← hrecords] at honce
        refine ⟨hprints.top, by rintro ⟨⟩, fun _ => ⟨?_, hholds, honce⟩, fun hcut => ?_⟩
        · exact congrArg some (congrArg Nat.cast hcur)
        · exact absurd hfit (Nat.not_lt.mpr hcut)
      · exact absurd hfit (Nat.not_lt.mpr hfull)
  | .error (.truncated l) =>
    obtain ⟨hfull, hcur, htop⟩ := h
    refine iff_of_true ⟨?_, ?_, ?_, ?_⟩ (Or.inr hfull)
    · change (l.text.buf.store 0 [nul]).top ≤ limit
      rw [TextBuffer.store_top (List.cons_ne_nil _ _)]
      exact Nat.max_le.mpr ⟨htop, hlimit⟩
    · rintro ⟨⟩
    · exact fun hwhole => absurd hwhole (Nat.not_lt.mpr (hfull.trans hle))
    · exact fun _ => ⟨_, by omega, rfl⟩
  | .error (.outOfBounds l) =>
    obtain ⟨hout, hroom, -⟩ := h
    refine iff_of_false (fun hall => hall.bounds rfl) ?_
    rintro (hcounted | hfull)
    · exact hout hcounted.inRange
    · exact absurd hroom (Nat.not_lt.mpr hfull)

end Complete

end

/-- The list of queues is complete exactly if, for each of the arrays, the resource manager counts
no more queues than the array has and all queues from the count on are disabled, or else the queues
up to the counts fill the buffer. -/
theorem queueList_iff (fmtPtr fmtHex : ℕ → String) (limit : ℕ) (rm : ResourceState)
    (dmaDeviceIndex funcId : ℕ) (dev : QdmaDev) (bytes : ℕ → Char) (fence : ℕ) :
    let count := activeCount rm dmaDeviceIndex funcId
    ListsAll limit dev (listing fmtPtr fmtHex count dev)
        (qdmaQueueList fmtPtr fmtHex limit rm dmaDeviceIndex funcId dev (.fresh bytes fence)) ↔
      Counted count dev ∨ limit ≤ (reached fmtPtr fmtHex count dev).length := by
  intro count
  unfold qdmaQueueList
  split_ifs with hnone
  · rw [hnone]
    refine iff_of_true ⟨Nat.le_refl 0, by rintro ⟨⟩, fun hwhole => ?_, fun _ => ⟨_, by decide, rfl⟩⟩
      (Or.inr (Nat.zero_le _))
    exact absurd hwhole (Nat.not_lt_zero _)
  · have hlimit : 0 < limit := Nat.pos_of_ne_zero hnone
    exact listsAll_iff_of_ends (listQueues_ends count dev (Nat.zero_le _) hlimit) hlimit

/-- One master whose only function counts one active H2C queue. -/
def oneActive : ResourceState where
  masterResourceList :=
    [{ dmaDeviceIndex := 0, pciBusStart := 0, pciBusEnd := 0, totalQ := 2, qbase := 0,
       devList := [{ funcId := 4, activeH2cQcnt := 1, entry := ⟨0, 2⟩ }], activeQcnt := 1 }]
  index := 1

/-- A queue of no use, disabled or not. -/
def bareQueue (type : QType) (state : QState) : Descq where
  name := "q"
  qType := type
  st := false
  err := false
  qState := state
  qidxHw := 0
  cmplthp := none
  desc := 0
  descBus := 0
  rngsz := 0
  descCmpt := 0
  descCmptBus := 0
  rngszCmpt := 0

/-- The only queue is the second one. -/
def secondQueue : QdmaDev where
  qmax := 2
  descq
    | .h2c => [bareQueue .h2c .disabled, bareQueue .h2c .enabled]
    | .c2h => [bareQueue .c2h .disabled, bareQueue .c2h .disabled]
    | .cmpt => [bareQueue .cmpt .disabled, bareQueue .cmpt .disabled]
  length_descq t := by cases t <;> rfl

/-- The resource manager counts one queue and the loop looks at the first entry only. -/
theorem secondQueue_not_listed :
    let count := activeCount oneActive 0 4
    ¬ ListsAll 4096 secondQueue (listing (fun _ => "p") (fun _ => "h") count secondQueue)
      (qdmaQueueList (fun _ => "p") (fun _ => "h") 4096 oneActive 0 4 secondQueue
        (.fresh (fun _ => nul) 4096)) := by
  intro count hall
  have hfit : (listing (fun _ => "p") (fun _ => "h") count secondQueue).length < 4096 := by
    decide +kernel
  have hrecords : (qdmaQueueList (fun _ => "p") (fun _ => "h") 4096 oneActive 0 4 secondQueue
      (.fresh (fun _ => nul) 4096)).records = [] := by
    decide +kernel
  have hlisted := ((hall.whole hfit).2.2.2 .h2c 1).mpr ⟨_, rfl, by decide⟩
  rw [hrecords] at hlisted
  exact absurd hlisted List.not_mem_nil

end OnicDriver.Dump
