import MachineLab.Proofs.Effects
import MachineLab.Proofs.Evolution

/-!
# Validation and its memory

Validation gives the verdict of the check without a memory, and touches nothing but what machines
remember.  The memory only saves work: a machine that is skipped is one that the check would pass.

## Main definitions

* `Workshop.Alike` — two workshops differ in nothing but what machines remember.
* `Workshop.verdict` — what a defect makes of a validation.

## Main statements

* `Work.validate_spec` — validation in a sound workshop.
-/

namespace MachineLab

open Relation

/-! ## Workshops that differ in memories -/

namespace Workshop

/-- Two workshops differ in nothing but what machines remember. -/
structure Alike (w w' : Workshop) : Prop where
  alphabets : w'.alphabets = w.alphabets
  length : w'.machines.length = w.machines.length
  machine : ∀ m, w'.machine m = (w.machine m).remembering (w'.machine m).validated

namespace Alike

variable {w w' w'' : Workshop}

theorem refl (w : Workshop) : w.Alike w := ⟨rfl, rfl, fun _ => rfl⟩

theorem trans (h : w.Alike w') (h' : w'.Alike w'') : w.Alike w'' := by
  refine ⟨h'.alphabets.trans h.alphabets, h'.length.trans h.length, fun m => ?_⟩
  rw [h'.machine m, h.machine m]
  rfl

theorem symm (h : w.Alike w') : w'.Alike w := by
  refine ⟨h.alphabets.symm, h.length.symm, fun m => ?_⟩
  rw [h.machine m]
  rfl

theorem remembering (w : Workshop) {m : MachineId} (hm : m.index < w.machines.length)
    (memo : Option RevisionKey) :
    w.Alike (w.setMachine m ((w.machine m).remembering memo)) := by
  refine ⟨rfl, length_setMachine _ _ _, fun n => ?_⟩
  rw [machine_setMachine hm]
  by_cases hn : n = m
  · rw [if_pos hn, hn]
    rfl
  · rw [if_neg hn]
    rfl

theorem states (h : w.Alike w') (m : MachineId) : (w'.machine m).states = (w.machine m).states := by
  rw [h.machine m]
  rfl

theorem kind (h : w.Alike w') (m : MachineId) : (w'.machine m).kind = (w.machine m).kind := by
  rw [h.machine m]
  rfl

theorem revision (h : w.Alike w') (m : MachineId) :
    (w'.machine m).revision = (w.machine m).revision := by
  rw [h.machine m]
  rfl

theorem alphabet (h : w.Alike w') (m : MachineId) :
    (w'.machine m).alphabet = (w.machine m).alphabet := by
  rw [h.machine m]
  rfl

theorem alphabetOf (h : w.Alike w') (m : MachineId) : w'.alphabetOf m = w.alphabetOf m := by
  unfold Workshop.alphabetOf Workshop.alphabet
  rw [h.alphabet m, h.alphabets]

theorem links (h : w.Alike w') (m : MachineId) : w'.links m = w.links m := by
  unfold Workshop.links
  rw [h.machine m]
  rfl

theorem nests (h : w.Alike w') : w'.Nests = w.Nests := by
  funext m i
  unfold Workshop.Nests
  rw [h.links]

theorem keyTo (h : w.Alike w') (d : Nat) (m : MachineId) : w'.keyTo d m = w.keyTo d m := by
  induction d generalizing m with
  | zero => simp only [Workshop.keyTo, h.alphabetOf, h.revision, h.alphabet]
  | succ d ih =>
    have nested : (w.links m).map (w'.keyTo d) = (w.links m).map (w.keyTo d) :=
      List.map_congr_left fun i _ => ih i
    simp only [Workshop.keyTo, keyBody, h.alphabetOf, h.links, nested, h.revision, h.alphabet]

theorem keyOf (h : w.Alike w') (m : MachineId) : w'.keyOf m = w.keyOf m := by
  unfold Workshop.keyOf
  rw [h.length, h.keyTo]

theorem clean_of_clean (h : w.Alike w') {m : MachineId} (clean : w.Clean m) : w'.Clean m := by
  intro n path
  rw [h.nests] at path
  have shape : (w.machine n).SameShape (w'.machine n) := by
    rw [h.machine n]
    exact ⟨rfl, rfl, rfl, rfl⟩
  rw [h.alphabetOf]
  exact shape.rules (clean n path)

theorem clean (h : w.Alike w') (m : MachineId) : w'.Clean m ↔ w.Clean m :=
  ⟨h.symm.clean_of_clean, h.clean_of_clean⟩

theorem sane (h : w.Alike w') (sane : w.Sane) : w'.Sane := by
  refine ⟨?_, ?_, ?_, ?_, ?_⟩
  · intro m
    rw [h.machine m]
    exact (sane.arena m).remembering _
  · intro m hm
    rw [h.machine m, h.alphabets]
    exact sane.alphabet_known m (h.length ▸ hm)
  · intro m i edge
    rw [h.nests] at edge
    rw [h.length]
    exact sane.links_known m i edge
  · intro m i edge
    rw [h.nests] at edge
    rw [h.kind]
    exact sane.links_turing m i edge
  · unfold Acyclic
    rw [h.nests]
    exact sane.acyclic

end Alike

end Workshop

namespace Machine

/-- What a machine remembers plays no part in the check. -/
theorem turingEdgeDefect_remembering (m : Machine) (memo : Option RevisionKey) (a : Alphabet)
    (s : State) (used : List Symbol) (ts : List Transition) :
    (m.remembering memo).turingEdgeDefect a s used ts = m.turingEdgeDefect a s used ts := by
  induction ts generalizing used with
  | nil => rfl
  | cons t rest ih =>
    simp only [turingEdgeDefect, ih]
    rfl

theorem turingStateDefect_remembering (m : Machine) (memo : Option RevisionKey) (a : Alphabet)
    (starts finals : Nat) (s : State) :
    (m.remembering memo).turingStateDefect a starts finals s =
      m.turingStateDefect a starts finals s := by
  unfold turingStateDefect
  simp only [turingEdgeDefect_remembering]
  rfl

theorem acceptorEdgeDefect_remembering (m : Machine) (memo : Option RevisionKey) (a : Alphabet)
    (s : State) (used : List Symbol) (ts : List Transition) :
    (m.remembering memo).acceptorEdgeDefect a s used ts =
      m.acceptorEdgeDefect a s used ts := by
  induction ts generalizing used with
  | nil => rfl
  | cons t rest ih =>
    simp only [acceptorEdgeDefect, ih]
    rfl

theorem acceptorDefect_remembering (m : Machine) (memo : Option RevisionKey) (a : Alphabet)
    (starts : Nat) (ss : List State) :
    (m.remembering memo).acceptorDefect a starts ss = m.acceptorDefect a starts ss := by
  induction ss generalizing starts with
  | nil => rfl
  | cons s rest ih =>
    have hstate : (m.remembering memo).acceptorStateDefect a starts s =
        m.acceptorStateDefect a starts s := by
      unfold acceptorStateDefect
      simp only [acceptorEdgeDefect_remembering]
      rfl
    simp only [acceptorDefect, hstate, ih]

end Machine

namespace Workshop

theorem defectAmong_remembering (inner : MachineId → Except Fault (Option Defect)) (m : Machine)
    (memo : Option RevisionKey) (a : Alphabet) (starts finals : Nat) (ss : List State) :
    defectAmong inner (m.remembering memo) a starts finals ss =
      defectAmong inner m a starts finals ss := by
  induction ss generalizing starts finals with
  | nil => rfl
  | cons s rest ih => simp only [defectAmong, Machine.turingStateDefect_remembering, ih]

/-! ## The verdict of a validation -/

/-- What a defect makes of a validation. -/
def verdict : Except Fault (Option Defect) → Except Fault Unit
  | .ok none => .ok ()
  | .ok (some d) => .error (.machine (.nondeterministic d))
  | .error e => .error e

theorem verdict_eq_ok_iff {found : Except Fault (Option Defect)} :
    verdict found = .ok () ↔ found = .ok none := by
  rcases found with e | _ | d <;> simp [verdict]

end Workshop

namespace Work

variable {w : Workshop}

/-- Looking at a nested machine gives its verdict as one of the machine around it. -/
theorem nestedDefect_eq {inner : MachineId → Work Unit}
    {verdicts : MachineId → Except Fault (Option Defect)}
    (foreign : ∀ i e, verdicts i = .error e → e.Foreign) {s : State} {b b' : Bench}
    (h : ∀ i, s.submachine = some i → inner i b = conclude (Workshop.verdict (verdicts i)) b')
    (h' : s.submachine = none → b' = b) :
    nestedDefect inner s b = conclude (Workshop.nestedVerdict verdicts s) b' := by
  unfold nestedDefect Workshop.nestedVerdict
  cases hsub : s.submachine with
  | none => rw [h' hsub]; rfl
  | some i =>
    simp only [h i hsub]
    cases hv : verdicts i with
    | ok found => cases found <;> rfl
    | error e =>
      cases e with
      | machine f => exact absurd rfl (foreign i _ hv f)
      | refusal c => rfl
      | mismatch c => rfl

/-- The scan of the states finds what the check without a memory finds, if validation of the nested
machines gives their verdicts. -/
theorem turingDefect_spec {inner : MachineId → Work Unit}
    {verdicts : MachineId → Except Fault (Option Defect)}
    (foreign : ∀ i e, verdicts i = .error e → e.Foreign) (m : Machine) (a : Alphabet)
    (ss : List State)
    (hinner : ∀ s ∈ ss, ∀ i, s.submachine = some i → ∀ b : Bench, w.Alike b.shop → b.shop.Good →
      ∃ b' : Bench, w.Alike b'.shop ∧ b.shop.Changes b'.shop ∧
        inner i b = conclude (Workshop.verdict (verdicts i)) b')
    (starts finals : Nat) (b : Bench) (alike : w.Alike b.shop) (good : b.shop.Good) :
    ∃ b' : Bench, w.Alike b'.shop ∧ b.shop.Changes b'.shop ∧
      turingDefect inner m a starts finals ss b =
        conclude (Workshop.defectAmong verdicts m a starts finals ss) b' := by
  induction ss generalizing starts finals b with
  | nil => exact ⟨b, alike, .refl, rfl⟩
  | cons s rest ih =>
    rw [List.forall_mem_cons] at hinner
    obtain ⟨b₁, alike₁, changes₁, hnested⟩ : ∃ b' : Bench, w.Alike b'.shop ∧
        b.shop.Changes b'.shop ∧
        nestedDefect inner s b = conclude (Workshop.nestedVerdict verdicts s) b' := by
      cases hsub : s.submachine with
      | none =>
        refine ⟨b, alike, .refl, nestedDefect_eq foreign (fun i hi => ?_) fun _ => rfl⟩
        rw [hsub] at hi
        cases hi
      | some i =>
        obtain ⟨b₁, alike₁, changes₁, h₁⟩ := hinner.1 i hsub b alike good
        refine ⟨b₁, alike₁, changes₁, nestedDefect_eq foreign (fun j hj => ?_) fun hn => ?_⟩
        · rw [hsub] at hj
          exact Option.some.inj hj ▸ h₁
        · rw [hsub] at hn
          cases hn
    rw [turingDefect, Workshop.defectAmong]
    cases hv : Workshop.nestedVerdict verdicts s with
    | error e =>
      rw [hv] at hnested
      exact ⟨b₁, alike₁, changes₁, bind_of_error hnested⟩
    | ok found =>
      rw [hv] at hnested
      rw [bind_of_ok hnested]
      cases found with
      | some d => exact ⟨b₁, alike₁, changes₁, rfl⟩
      | none =>
        cases hstate : m.turingStateDefect a starts finals s with
        | error e => exact ⟨b₁, alike₁, changes₁, rfl⟩
        | ok found =>
          cases found with
          | some d => exact ⟨b₁, alike₁, changes₁, rfl⟩
          | none =>
            obtain ⟨b₂, alike₂, changes₂, h₂⟩ :=
              ih hinner.2 (Machine.countIf starts s.isStart) (Machine.countIf finals s.isFinal) b₁
                alike₁ (changes₁.good good)
            exact ⟨b₂, alike₂, changes₁.trans changes₂, h₂⟩

/-- Looking for a defect finds what the check without a memory finds. -/
theorem findDefect_spec {d : Nat} {m : MachineId}
    (hinner : ∀ i, w.Nests m i → ∀ b : Bench, w.Alike b.shop → b.shop.Good →
      ∃ b' : Bench, w.Alike b'.shop ∧ b.shop.Changes b'.shop ∧
        validateTo d i b = conclude (Workshop.verdict (w.defectTo d i)) b')
    (b : Bench) (alike : w.Alike b.shop) (good : b.shop.Good) :
    ∃ b' : Bench, w.Alike b'.shop ∧ b.shop.Changes b'.shop ∧
      findDefect (validateTo d) m b = conclude (w.defectTo (d + 1) m) b' := by
  have hmachine := alike.machine m
  have halphabet := alike.alphabetOf m
  generalize (b.shop.machine m).validated = memo at hmachine
  unfold findDefect
  simp only [bind, EStateM.bind, get_apply, Workshop.defectTo]
  rw [hmachine, halphabet]
  cases hk : (w.machine m).kind with
  | turing =>
    have hk' : ((w.machine m).remembering memo).kind = .turing := hk
    simp only [hk']
    have inner : ∀ s ∈ (w.machine m).states, ∀ i, s.submachine = some i → ∀ b : Bench,
        w.Alike b.shop → b.shop.Good → ∃ b' : Bench, w.Alike b'.shop ∧
          b.shop.Changes b'.shop ∧
          validateTo d i b = conclude (Workshop.verdict (w.defectTo d i)) b' :=
      fun s hs i hi => hinner i ((w.nests_iff m i).mpr ⟨s, hs, hi⟩)
    obtain ⟨b', alike', changes', h⟩ :=
      turingDefect_spec (fun i e => Workshop.defectTo_foreign (alike.symm.sane good.sane).arena)
        ((w.machine m).remembering memo) (w.alphabetOf m) (w.machine m).states inner 0 0 b
        alike good
    rw [Workshop.defectAmong_remembering] at h
    exact ⟨b', alike', changes', h⟩
  | acceptor =>
    have hk' : ((w.machine m).remembering memo).kind = .acceptor := hk
    simp only [hk', Machine.acceptorDefect_remembering]
    refine ⟨b, alike, .refl, ?_⟩
    change ofExcept ((w.machine m).acceptorDefect (w.alphabetOf m) 0 (w.machine m).states) b = _
    cases (w.machine m).acceptorDefect (w.alphabetOf m) 0 (w.machine m).states <;> rfl

/-- Validation, descending far enough, in a sound workshop that differs from `w` only in what
machines remember. -/
theorem validateTo_spec (sane : w.Sane) {d : Nat} {m : MachineId} (deep : w.Within d m)
    (hm : m.index < w.machines.length) (b : Bench) (alike : w.Alike b.shop)
    (good : b.shop.Good) :
    ∃ b' : Bench, w.Alike b'.shop ∧ b.shop.Changes b'.shop ∧
      validateTo d m b = conclude (Workshop.verdict (w.defectTo d m)) b' ∧
      (w.defectTo d m = .ok none → (b'.shop.machine m).validated = some (w.keyOf m)) := by
  induction d generalizing m b with
  | zero => exact deep.elim
  | succ d ih =>
    have hm' : m.index < b.shop.machines.length := alike.length ▸ hm
    rw [validateTo, validateBody]
    simp only [bind, EStateM.bind, get_apply, pure]
    by_cases memo : (b.shop.machine m).validated = some (b.shop.keyOf m)
    · -- The machine is skipped, and the check would have passed it.
      have clean : w.Clean m := (alike.clean m).mp (good.memo.clean hm' memo)
      have pass := (Workshop.defectTo_eq_none_iff sane.arena sane.flat deep).mpr clean
      rw [if_pos memo, pass]
      exact ⟨b, alike, .refl, rfl, fun _ => alike.keyOf m ▸ memo⟩
    · rw [if_neg memo]
      obtain ⟨b₁, alike₁, changes₁, h₁⟩ := findDefect_spec
        (fun i edge b alike good => by
          obtain ⟨b', alike', changes', h', -⟩ :=
            ih (deep i edge) (sane.links_known m i edge) b alike good
          exact ⟨b', alike', changes', h'⟩) b alike good
      simp only [EStateM.bind, h₁]
      cases hv : w.defectTo (d + 1) m with
      | error e => exact ⟨b₁, alike₁, changes₁, rfl, fun h => by cases h⟩
      | ok found =>
        cases found with
        | some defect =>
          refine ⟨_, ?_, ?_, rfl, fun h => by cases h⟩
          · exact alike₁
          · exact changes₁
        | none =>
          have hm₁ : m.index < b₁.shop.machines.length := alike₁.length ▸ hm
          have clean : b₁.shop.Clean m :=
            (alike₁.clean m).mpr
              ((Workshop.defectTo_eq_none_iff sane.arena sane.flat deep).mp hv)
          have hkey : b.shop.keyOf m = b₁.shop.keyOf m := by rw [alike.keyOf, alike₁.keyOf]
          refine ⟨_, ?_, ?_, rfl, fun _ => ?_⟩
          · rw [hkey]
            exact alike₁.trans (.remembering _ hm₁ _)
          · rw [hkey]
            exact changes₁.tail (.remember hm₁ clean)
          · change ((b₁.shop.setMachine m _).machine m).validated = _
            rw [Workshop.machine_setMachine_self _ _ _ hm₁, alike.keyOf]

/-- **Validation gives the verdict of the check without a memory**, changes nothing but what machines
remember, and after a success the machine counts as validated. -/
theorem validate_spec {b : Bench} (good : b.shop.Good) {m : MachineId}
    (hm : m.index < b.shop.machines.length) :
    ∃ b' : Bench, b.shop.Alike b'.shop ∧ b.shop.Changes b'.shop ∧
      validate m b = conclude (Workshop.verdict (b.shop.defectOf m)) b' ∧
      (b.shop.defectOf m = .ok none → b'.shop.isValidated m = true) := by
  obtain ⟨b', alike, changes, h, memo⟩ :=
    validateTo_spec good.sane (good.sane.within hm) hm b (.refl _) good
  refine ⟨b', alike, changes, h, fun pass => ?_⟩
  rw [Workshop.isValidated, beq_iff_eq, alike.keyOf]
  exact memo pass

end Work

/-- A machine that is found valid is clean. -/
theorem Workshop.Good.clean_of_valid {w : Workshop} (good : w.Good) {m : MachineId}
    (hm : m.index < w.machines.length) {j : Journal}
    (valid : outcome (Work.validate m) ⟨w, j⟩ = .ok ()) : w.Clean m := by
  obtain ⟨b, -, -, hvalidate, -⟩ := Work.validate_spec (b := ⟨w, j⟩) good hm
  rw [outcome_of_conclude hvalidate, Workshop.verdict_eq_ok_iff] at valid
  exact (good.sane.defectOf_eq_none_iff hm).mp valid

end MachineLab
