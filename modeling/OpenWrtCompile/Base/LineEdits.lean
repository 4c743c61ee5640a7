import Mathlib.Data.List.Basic
import Mathlib.Logic.Function.Basic
import Mathlib.Tactic.Common

/-!
# Files under a script of edits

An edit deletes the lines that meet a test, or appends lines. A script is a sequence of blocks, each of
which takes some lines out and leaves others behind; what is in a file in the end was in it from the
start, or was left behind by a block, and no later block took it out.
-/

namespace OpenWrtCompile.Base

universe u v

/-- One edit of a file. -/
inductive FileEdit (α : Type u)
  | delete (p : α → Bool)
  | append (xs : List α)

section Edits

variable {α : Type u}

/-- The file after an edit. -/
def FileEdit.apply : FileEdit α → List α → List α
  | .delete p, l => l.filter fun x ↦ !p x
  | .append xs, l => l ++ xs

/-- The file after several edits. -/
def runEdits (es : List (FileEdit α)) (l : List α) : List α := es.foldl (fun l e ↦ e.apply l) l

/-- No edits. -/
@[simp] theorem runEdits_nil (l : List α) : runEdits [] l = l := rfl

/-- Some edits behind others. -/
theorem runEdits_append (es₁ es₂ : List (FileEdit α)) (l : List α) :
    runEdits (es₁ ++ es₂) l = runEdits es₂ (runEdits es₁ l) := List.foldl_append

/-- A deletion comes first. -/
@[simp] theorem runEdits_delete (p : α → Bool) (es : List (FileEdit α)) (l : List α) :
    runEdits (.delete p :: es) l = runEdits es (l.filter fun x ↦ !p x) := rfl

/-- Lines are appended first. -/
@[simp] theorem runEdits_append_cons (xs : List α) (es : List (FileEdit α)) (l : List α) :
    runEdits (.append xs :: es) l = runEdits es (l ++ xs) := rfl

/-- What is in a file was there or was appended. -/
theorem mem_of_mem_runEdits {es : List (FileEdit α)} {l : List α} {x : α}
    (h : x ∈ runEdits es l) : x ∈ l ∨ ∃ xs, FileEdit.append xs ∈ es ∧ x ∈ xs := by
  induction es generalizing l with
  | nil => exact Or.inl h
  | cons e es ih =>
    obtain hl | ⟨xs, hxs, hx⟩ := ih h
    · cases e with
      | delete p => exact Or.inl (List.mem_filter.mp hl).1
      | append xs =>
        obtain hl | hx := List.mem_append.mp hl
        · exact Or.inl hl
        · exact Or.inr ⟨xs, List.mem_cons_self, hx⟩
    · exact Or.inr ⟨xs, List.mem_cons_of_mem _ hxs, hx⟩

/-- A block takes out the lines that meet `p` and leaves behind those of `add`. -/
def IsBlock (es : List (FileEdit α)) (p : α → Bool) (add : List α) : Prop :=
  ∀ l x, x ∈ runEdits es l ↔ x ∈ l ∧ p x = false ∨ x ∈ add

/-- A sequence of blocks. -/
theorem mem_runEdits_blocks {β : Type v} {e : β → List (FileEdit α)} {p : β → α → Bool}
    {add : β → List α} (he : ∀ b, IsBlock (e b) (p b) (add b)) (bs : List β) (l : List α) (x : α) :
    x ∈ runEdits (bs.flatMap e) l ↔
      (x ∈ l ∧ ∀ b ∈ bs, p b x = false) ∨
        ∃ pre b post, bs = pre ++ b :: post ∧ x ∈ add b ∧ ∀ b' ∈ post, p b' x = false := by
  induction bs generalizing l with
  | nil => simp
  | cons b bs ih =>
    rw [List.flatMap_cons, runEdits_append, ih, he b]
    constructor
    · rintro (⟨⟨hl, hp⟩ | hadd, hbs⟩ | ⟨pre, b', post, rfl, hadd, hpost⟩)
      · refine Or.inl ⟨hl, fun b' hb' ↦ ?_⟩
        obtain rfl | hb' := List.mem_cons.mp hb'
        · exact hp
        · exact hbs b' hb'
      · exact Or.inr ⟨[], b, bs, rfl, hadd, hbs⟩
      · exact Or.inr ⟨b :: pre, b', post, rfl, hadd, hpost⟩
    · rintro (⟨hl, hbs⟩ | ⟨pre, b', post, heq, hadd, hpost⟩)
      · exact Or.inl ⟨Or.inl ⟨hl, hbs b List.mem_cons_self⟩, fun b' hb' ↦
          hbs b' (List.mem_cons_of_mem _ hb')⟩
      · cases pre with
        | nil =>
          obtain ⟨rfl, rfl⟩ := List.cons.inj heq
          exact Or.inl ⟨Or.inr hadd, hpost⟩
        | cons a pre =>
          obtain ⟨rfl, rfl⟩ := List.cons.inj heq
          exact Or.inr ⟨pre, b', post, rfl, hadd, hpost⟩

/-- Deletions alone. -/
theorem isBlock_deletes {β : Type v} (q : β → α → Bool) (bs : List β) :
    IsBlock (bs.flatMap fun b ↦ [.delete (q b)]) (fun x ↦ bs.any fun b ↦ q b x) [] := by
  intro l x
  have hblock : ∀ b, IsBlock [.delete (q b)] (q b) [] := fun b l x ↦ by simp [List.mem_filter]
  rw [mem_runEdits_blocks hblock]
  simp

/-- Lines that are appended behind a block. -/
theorem IsBlock.append {es : List (FileEdit α)} {p : α → Bool} {add : List α}
    (h : IsBlock es p add) (xs : List α) : IsBlock (es ++ [.append xs]) p (add ++ xs) := by
  intro l x
  rw [runEdits_append, runEdits_append_cons, runEdits_nil, List.mem_append, h, List.mem_append,
    or_assoc]

end Edits

section Commands

variable {φ : Type v} {α : Type u} [DecidableEq φ]

/-- A command: an edit of one of several files. -/
structure FileCommand (φ : Type v) (α : Type u) where
  file : φ
  edit : FileEdit α

/-- The files after several commands. -/
def runCommands (cs : List (FileCommand φ α)) (s : φ → List α) : φ → List α :=
  cs.foldl (fun s c ↦ Function.update s c.file (c.edit.apply (s c.file))) s

/-- The edits of one file. -/
def editsOf (f : φ) (cs : List (FileCommand φ α)) : List (FileEdit α) :=
  (cs.filter fun c ↦ c.file = f).map FileCommand.edit

/-- A file after the commands is the file after its own edits. -/
theorem runCommands_apply (cs : List (FileCommand φ α)) (s : φ → List α) (f : φ) :
    runCommands cs s f = runEdits (editsOf f cs) (s f) := by
  unfold editsOf
  induction cs generalizing s with
  | nil => rfl
  | cons c cs ih =>
    have hstep : runCommands (c :: cs) s =
        runCommands cs (Function.update s c.file (c.edit.apply (s c.file))) := rfl
    rw [hstep, ih, List.filter_cons]
    by_cases hf : c.file = f
    · subst hf
      simp [runEdits]
    · simp [hf, Function.update_of_ne (Ne.symm hf)]

/-- The edits of one file in two scripts. -/
@[simp] theorem editsOf_append (f : φ) (cs ds : List (FileCommand φ α)) :
    editsOf f (cs ++ ds) = editsOf f cs ++ editsOf f ds := by
  simp [editsOf]

/-- An edit of one file. -/
theorem mem_editsOf {f : φ} {e : FileEdit α} {cs : List (FileCommand φ α)} :
    e ∈ editsOf f cs ↔ ⟨f, e⟩ ∈ cs := by
  unfold editsOf
  rw [List.mem_map]
  constructor
  · rintro ⟨⟨f', e'⟩, hc, rfl⟩
    have hmem := (List.mem_filter.mp hc).1
    have hf : f' = f := of_decide_eq_true (List.mem_filter.mp hc).2
    subst hf
    exact hmem
  · intro hc
    exact ⟨⟨f, e⟩, List.mem_filter.mpr ⟨hc, decide_eq_true rfl⟩, rfl⟩

/-- The edits of one file in a loop. -/
theorem editsOf_flatMap {β : Type*} (f : φ) (xs : List β) (g : β → List (FileCommand φ α)) :
    editsOf f (xs.flatMap g) = xs.flatMap fun x ↦ editsOf f (g x) := by
  induction xs with
  | nil => rfl
  | cons x xs ih => rw [List.flatMap_cons, List.flatMap_cons, editsOf_append, ih]

end Commands

end OpenWrtCompile.Base
