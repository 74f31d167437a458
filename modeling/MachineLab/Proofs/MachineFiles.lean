import MachineLab.Proofs.Documents
import MachineLab.Proofs.Reports
import MachineLab.Proofs.TapeFiles

/-!
# Files of machines

Loading a machine from a file always comes to an end.  If there is room to read the text in the file, it
gives nothing if the value is no document of a machine, and otherwise a machine that is sound together
with everything nested in it.  The machines that were there before are not touched, and none of them is
held by a machine that was loaded.

## Main definitions

* `Workshop.Whole` — a machine is sound, with everything nested in it.

## Main statements

* `Workshop.Read.whole` — a document is read as a machine that is whole.
-/

namespace MachineLab

open Relation

namespace Workshop

variable {b w : Workshop} {d : Nat} {m i : MachineId} {v : Value}

/-- A machine is whole: in it and in the machines nested in it, at any depth, the arenas are in order and
only Turing machines hold machines and are held; these machines form a tree, in which none occurs twice,
and no two have one alphabet. -/
structure Whole (w : Workshop) (m : MachineId) : Prop where
  arena : ∀ i, ReflTransGen w.Nests m i → (w.machine i).Arena
  links_turing : ∀ i j, ReflTransGen w.Nests m i → w.Nests i j →
    (w.machine i).kind = .turing ∧ (w.machine j).kind = .turing
  tree_complete : ∀ i, i ∈ w.tree w.machines.length m ↔ ReflTransGen w.Nests m i
  tree_nodup : (w.tree w.machines.length m).Nodup
  alphabets_nodup : ((w.tree w.machines.length m).map fun i => (w.machine i).alphabet).Nodup

namespace Read

variable (h : Read b w d v)
include h

theorem tree_eq : w.tree w.machines.length b.next = w.tree d b.next :=
  Workshop.tree_eq (h.good.sane.within h.known) h.deep

/-- The machines that were read came after those that were there. -/
theorem le_of_path (path : ReflTransGen w.Nests b.next i) : b.next.index ≤ i.index :=
  le_of_mem_tree h.rising (Nat.le_refl _) (mem_tree_of_path h.deep path)

/-- The machines that were read have their alphabets to themselves: alphabets and machines were brought
in by turns. -/
theorem alphabets_nodup : ((w.tree d b.next).map fun i => (w.machine i).alphabet).Nodup := by
  refine List.Nodup.map_on (fun i hi j hj same => ?_) h.tree
  have paired (k : MachineId) (hk : k ∈ w.tree d b.next) :
      (w.machine k).alphabet.index + b.machines.length = k.index + b.alphabets.length :=
    h.paired k (le_of_mem_tree h.rising (Nat.le_refl _) hk) (lt_of_mem_tree h.good.sane h.known hk)
  have hi := paired i hi
  have hj := paired j hj
  rw [same] at hi
  cases i
  cases j
  exact congrArg _ (by simp only at hi hj; omega)

/-- **A document is read as a machine that is whole.** -/
theorem whole : w.Whole b.next where
  arena i _ := h.good.sane.arena i
  links_turing i j _ edge := ⟨h.good.sane.flat i j edge, h.good.sane.links_turing i j edge⟩
  tree_complete i := ⟨path_of_mem_tree, mem_tree_of_path (h.good.sane.within h.known)⟩
  tree_nodup := by
    rw [h.tree_eq]
    exact h.tree
  alphabets_nodup := by
    rw [h.tree_eq]
    exact h.alphabets_nodup

end Read

end Workshop

namespace DeskM

/-- **Loading a machine is total, and what is loaded is whole.**  Whatever is at a path, loading comes to
an end without a fault and leaves the files alone, unless a text there is nested deeper than there is
room; then that is the fault, and nothing is done.  It gives nothing exactly if the value in the file is
refused as a document, and then leaves the workshop as it was.  Otherwise it gives the machine of the
document, which is whole and consists of new machines. -/
theorem loading_machines_is_total {d : Desk} (reachable : d.shop.Reachable) (path : String) :
    (∀ bracket, d.files.readJson d.room path = .error (.json (.tooDeep bracket)) →
      loadMachine path d = .error (.mismatch (.deepText bracket)) d) ∧
    ((∀ bracket, d.files.readJson d.room path ≠ .error (.json (.tooDeep bracket))) →
      ∃ m? d', loadMachine path d = .ok m? d' ∧ d'.files = d.files ∧ (m? = none → d'.shop = d.shop) ∧
        (∀ v, d.files.readJson d.room path = .ok v →
          (m? = none ↔ ∃ e b, Work.readDocument v ⟨d.shop, d.journal⟩ = .error e b)) ∧
        ∀ m, m? = some m →
          (∃ v b, d.files.readJson d.room path = .ok v ∧
            Work.readDocument v ⟨d.shop, d.journal⟩ = .ok m b ∧ d'.shop = b.shop) ∧
          d'.shop.Whole m ∧
          ∀ i, ReflTransGen d'.shop.Nests m i → d.shop.machines.length ≤ i.index) := by
  refine ⟨fun bracket deep => ?_, fun shallow => ?_⟩
  · exact loadMachine_of_deep (Directory.holds_of_readJson deep nofun nofun) deep
  cases hjson : d.files.readJson d.room path with
  | error e =>
    obtain ⟨journal, loads⟩ : ∃ journal, loadMachine path d = .ok none { d with journal } := by
      by_cases present : d.files.holds path = true
      · refine loadMachine_of_unreadable present hjson fun bracket same => shallow bracket ?_
        rw [hjson, same]
      · exact loadMachine_of_absent present
    exact ⟨none, _, loads, rfl, fun _ => rfl, nofun, nofun⟩
  | ok v =>
    have present := Directory.holds_of_readJson hjson nofun nofun
    cases hread : Work.readDocument v ⟨d.shop, d.journal⟩ with
    | error e b =>
      obtain ⟨journal, loads⟩ := loadMachine_of_refused present hjson hread
      refine ⟨none, _, loads, rfl, fun _ => rfl, ?_, nofun⟩
      rintro _ ⟨⟩
      exact ⟨fun _ => ⟨e, b, hread⟩, fun _ => rfl⟩
    | ok m b =>
      obtain ⟨journal, loads⟩ := loadMachine_of_accepted present hjson hread
      refine ⟨some m, _, loads, rfl, nofun, ?_, ?_⟩
      · rintro _ ⟨⟩
        refine ⟨nofun, ?_⟩
        rintro ⟨e, b', refused⟩
        rw [hread] at refused
        cases refused
      · rintro _ ⟨⟩
        obtain ⟨rfl, read⟩ := Work.read_of_readDocument reachable.good hread
        exact ⟨⟨v, b, rfl, hread, rfl⟩, read.whole, fun i path => read.le_of_path path⟩

theorem sketch_plain : Work.sketch.Plain := by
  have digits : ∀ n ∈ [1, 2, 5, 7], Text.isShort n = true := by decide
  simp [Work.sketch, Value.Plain, Value.PlainItems, Value.PlainFields, Dict.keys, digits]

/-- A document by hand that holds another one is loaded as two machines. -/
theorem sketch_is_loaded :
    let bytes := Text.Utf8.encode (Json.render Json.Layout.document Work.sketch)
    let d : Desk := ⟨Workshop.empty, ⟨[(["m.tmachine"], .file bytes)]⟩, Journal.empty, default⟩
    d.shop.Reachable ∧ ∃ m d', loadMachine "m.tmachine" d = .ok (some m) d' ∧ d'.shop.Whole m := by
  intro bytes d
  have clean : checkPath "m.tmachine" = .ok () := eq_ok_of_toOption (by decide +kernel)
  have leads : d.files.resolve "m.tmachine" = .ok ⟨["m.tmachine"], false⟩ :=
    eq_ok_of_toOption (by decide +kernel)
  have fits : Work.sketch.height ≤ d.room.reading := by decide
  have value : d.files.readJson d.room "m.tmachine" = .ok Work.sketch :=
    Directory.readJson_of_render sketch_plain fits clean
      (Directory.read_eq_ok_iff.mpr ⟨_, leads, rfl⟩)
  have accepted := eq_ok_of_outcome Work.outcome_sketch
  obtain ⟨m?, d', loads, -, -, refused, loaded⟩ :=
    (loading_machines_is_total (d := d) .empty "m.tmachine").2 (by simp [value])
  cases m? with
  | none =>
    obtain ⟨e, b, failed⟩ := (refused _ value).mp rfl
    exact absurd (accepted.symm.trans failed) nofun
  | some m => exact ⟨.empty, m, d', loads, (loaded m rfl).2.1⟩

end DeskM

end MachineLab
