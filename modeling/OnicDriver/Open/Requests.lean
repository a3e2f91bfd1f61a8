import OnicDriver.Open.Kept

/-!
# The requests of an opening

What `qdma_device_open` asks of the resource manager is the creation of a
master, the creation of an entry and an update. What these keep the opening of
a device keeps, wherever it ends.
-/

namespace OnicDriver.Open

open Lib Resource

/-- The ranges that an opening asks an update for: that of the configuration, or the one that the
function has. -/
def AskedFor (conf : DevConf) (rm : ResourceState) (i f qmax : ℕ) (qbase : ℤ) : Prop :=
  (qmax = conf.qsetsMax ∧ qbase = conf.qsetsBase) ∨
    ∃ d, qdmaGetDevEntry rm i f = some d ∧ qmax = d.entry.totalQ ∧ qbase = d.entry.qbase

/-- A property of the resource manager that the requests of an opening keep. -/
structure KeptByRequests (conf : DevConf) (P : ResourceState → Prop) : Prop where
  create : ∀ rm busStart busEnd mem, P rm →
    P (qdmaMasterResourceCreate rm busStart busEnd QDMA_QBASE QDMA_TOTAL_Q mem).2.2
  entry : ∀ rm i f mem, P rm → P (qdmaDevEntryCreate rm i f mem).2
  update : ∀ rm i f qmax qbase mem, AskedFor conf rm i f qmax qbase → P rm →
    P (qdmaDevUpdate rm i f qmax qbase mem).2.2

variable {P : ResourceState → Prop} {env : OpenEnv} {conf : DevConf} {rm : ResourceState}

/-- After an update, the check of the modes leaves the resource manager alone. -/
theorem KeptByRequests.afterUpdate (hP : KeptByRequests conf P) (env : OpenEnv) {i f qmax : ℕ}
    {qbase : ℤ} (mem : CallocResults) (hasked : AskedFor conf rm i f qmax qbase) (h : P rm) :
    P (Open.afterUpdate env (qdmaDevUpdate rm i f qmax qbase mem)).2.2 := by
  rw [afterUpdate_rm]
  exact hP.update rm i f qmax qbase mem hasked h

theorem KeptByRequests.openEntry (hP : KeptByRequests conf P) (env : OpenEnv) (i : ℕ)
    (h : P rm) : P (Open.openEntry env conf i rm).2.2 := by
  have hcreate := hP.entry rm i env.funcId env.entryMem h
  unfold Open.openEntry
  split
  · exact h
  · cases hd : qdmaGetDevEntry rm i env.funcId with
    | none =>
      obtain ⟨rv, hqinfo, hneg⟩ := qdmaDevQinfoGet_of_none hd
      rw [hqinfo]
      dsimp only [Option.getD_none]
      rw [if_pos hneg]
      split
      · exact hcreate
      · exact hP.afterUpdate env _ (.inl ⟨rfl, rfl⟩) hcreate
    | some d =>
      rw [qdmaDevQinfoGet_of_some hd]
      dsimp only [Option.getD_some]
      rw [if_neg (lt_irrefl 0)]
      dsimp only
      rw [if_neg (lt_irrefl 0)]
      exact hP.afterUpdate env _ (.inr ⟨d, hd, rfl, rfl⟩) h

theorem KeptByRequests.openResources (hP : KeptByRequests conf P) (env : OpenEnv)
    (h : P rm) : P (Open.openResources env conf rm).2.2 := by
  have hcreate := hP.create rm env.busNumber env.busMax env.masterMem h
  unfold Open.openResources
  dsimp only
  split
  · exact hcreate
  · exact hP.openEntry env _ hcreate

theorem KeptByRequests.openMapped (hP : KeptByRequests conf P) (env : OpenEnv)
    (h : P rm) : P (Open.openMapped env conf rm).2.2 := by
  have hres :
      P (if env.isVf = true then (0, true, rm) else Open.openResources env conf rm).2.2 := by
    split
    · exact h
    · exact hP.openResources env h
  unfold Open.openMapped
  split
  · exact h
  · split
    · exact h
    · split
      · exact h
      · generalize (if env.isVf = true then (0, true, rm)
          else Open.openResources env conf rm) = res at hres
        obtain ⟨rv, ok, rm'⟩ := res
        cases ok with
        | false => exact hres
        | true =>
          dsimp only
          split_ifs <;> exact hres

/-- The opening of a device keeps what its requests keep. -/
theorem KeptByRequests.qdmaDeviceOpen (conf : Option DevConf)
    (hP : ∀ c ∈ conf, KeptByRequests c P) (env : OpenEnv) (modName : Bool) {s : HostState}
    (h : P s.rm) : P (Open.qdmaDeviceOpen env modName conf s).2.2.rm := by
  unfold Open.qdmaDeviceOpen
  split
  · exact h
  · split
    · exact h
    · rename_i conf
      split
      · exact h
      · exact h
      · rename_i pdev _ _
        have hmapped := (hP conf rfl).openMapped env h
        unfold openChecked
        dsimp only
        split_ifs <;> first | exact h | skip
        generalize Open.openMapped env conf s.rm = res at hmapped
        obtain ⟨rv, ok, rm'⟩ := res
        cases ok <;> exact hmapped

end OnicDriver.Open
