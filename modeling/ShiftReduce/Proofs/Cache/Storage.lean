import ShiftReduce.Cache.FileTree
import ShiftReduce.Proofs.Automaton.State
import Mathlib.Data.Set.Insert
/-!
# What storage may do

A cache asks of its storage very little. Time may go in any direction, and every operation may fail
for any reason and at any time, but what is read is in a file, and no operation puts anything into a
file but what was given to be published.

Main statement: `MemoryDisk.honest_storage`. The disk in memory is such a storage.
-/

namespace ShiftReduce

variable {σ α β : Type}

/-- The contract of a clock and a disk whose files have the given contents in a state. An operation
may fail, may remove files, and may change all else. -/
structure Storage.Honest (s : Storage (StateM σ)) (files : σ → Set Bytes) : Prop where
  now (w : σ) : files (s.now.run w).2 ⊆ files w
  read (path : String) (w : σ) : files ((s.read path).run w).2 ⊆ files w
  /-- What is read is what a file holds. -/
  contents {path : String} {w : σ} {b : Bytes} :
    ((s.read path).run w).1 = .contents b → b ∈ files w
  remove (path : String) (w : σ) : files ((s.remove path).run w).2 ⊆ files w
  /-- A file is published with all of its bytes or not at all. -/
  publish (directory path : String) (b : Bytes) (w : σ) :
    files ((s.publish directory path b).run w).2 ⊆ insert b (files w)

/-! ## Actions that keep a property of the state -/

/-- From a state with the property `P` the action leads to a state with this property, and returns
something with the property `Q`. -/
def Keeps (P : σ → Prop) (x : StateM σ α) (Q : α → Prop) : Prop :=
  ∀ w, P w → Q (x.run w).1 ∧ P (x.run w).2

namespace Keeps

variable {P : σ → Prop} {x : StateM σ α} {Q Q' : α → Prop} {R : β → Prop}

lemma pure {a : α} (h : Q a) : Keeps P (Pure.pure a) Q := fun _ hw => ⟨h, hw⟩

lemma bind {f : α → StateM σ β} (hx : Keeps P x Q) (hf : ∀ a, Q a → Keeps P (f a) R) :
    Keeps P (x >>= f) R := fun w hw =>
  hf _ (hx w hw).1 _ (hx w hw).2

end Keeps

/-! ## The disk in memory -/

namespace FileTree

variable {t : FileTree} {p : Location} {b : Bytes}

/-- The contents of the files of a tree. -/
def files (t : FileTree) : Set Bytes := {b | ∃ p, (p, .file b) ∈ t.nodes}

lemma mem_files_of_node? (h : t.node? p = some (.file b)) : b ∈ t.files := by
  rw [node?] at h
  split_ifs at h
  · cases h
  · exact ⟨p, State.mem_of_lookup h⟩

lemma mem_files_of_read {path : String} (h : t.read path = .ok b) : b ∈ t.files := by
  simp only [read, bind, Except.bind] at h
  split at h
  · cases h
  · split at h
    case h_1 hnode =>
      cases h
      exact mem_files_of_node? hnode
    all_goals cases h

lemma files_removeAll_subset (t : FileTree) (p : Location) : (t.removeAll p).files ⊆ t.files :=
  fun _ ⟨q, hq⟩ => ⟨q, (List.mem_filter.mp hq).1⟩

lemma files_put_file_subset (t : FileTree) (p : Location) (b : Bytes) :
    (t.put p (.file b)).files ⊆ insert b t.files := by
  rintro b' ⟨q, hq⟩
  rcases List.mem_cons.mp hq with heq | hq
  · cases heq
    exact Set.mem_insert _ _
  · exact Set.mem_insert_of_mem _ ⟨q, (List.mem_filter.mp hq).1⟩

lemma files_put_directory_subset (t : FileTree) (p : Location) :
    (t.put p .directory).files ⊆ t.files := by
  rintro b' ⟨q, hq⟩
  rcases List.mem_cons.mp hq with heq | hq
  · cases heq
  · exact ⟨q, (List.mem_filter.mp hq).1⟩

/-- The change puts nothing but the given contents into files, whether it fails or not. -/
def Writes (B : Set Bytes) (c : Change) : Prop :=
  ∀ t : FileTree, (t.change c).2.files ⊆ t.files ∪ B

section

variable {B : Set Bytes} {c d : Change} {path : String}

lemma change_bind (t : FileTree) (c d : Change) : t.change (do c; d) =
    match t.change c with
    | (.error e, t') => (.error e, t')
    | (.ok (), t') => t'.change d := by
  simp only [change, ExceptT.run_bind, StateT.run_bind]
  rcases c.run.run t with ⟨e | _, t'⟩ <;> rfl

lemma change_tryCatch (t : FileTree) (c : Change) (handle : Obstacle → Change) :
    t.change (tryCatch c handle) =
    match t.change c with
    | (.error e, t') => t'.change (handle e)
    | (.ok (), t') => (.ok (), t') := by
  simp only [change, ExceptT.run_tryCatch, StateT.run_bind]
  rcases c.run.run t with ⟨e | _, t'⟩ <;> rfl

lemma Writes.bind (hc : Writes B c) (hd : Writes B d) : Writes B (do c; d) := by
  intro t
  have hmove := hc t
  rw [change_bind]
  rcases h : t.change c with ⟨e | _, t'⟩
  all_goals rw [h] at hmove
  · exact hmove
  · exact (hd t').trans (Set.union_subset hmove Set.subset_union_right)

lemma Writes.tryCatch {handle : Obstacle → Change} (hc : Writes B c)
    (hh : ∀ e, Writes B (handle e)) : Writes B (tryCatch c handle) := by
  intro t
  have hmove := hc t
  rw [change_tryCatch]
  rcases h : t.change c with ⟨e | _, t'⟩
  all_goals rw [h] at hmove
  · exact (hh e t').trans (Set.union_subset hmove Set.subset_union_right)
  · exact hmove

lemma Writes.throw (e : Obstacle) : Writes B (throw e) := fun _ => Set.subset_union_left

/-- A change that begins by following a path. -/
lemma Writes.locate {f : FileTree → Location → Change}
    (h : ∀ (t : FileTree) p, (t.change (f t p)).2.files ⊆ t.files ∪ B) :
    Writes B (do
      let t ← get
      let p ← t.locate path
      f t p) := by
  intro t
  show (t.change (liftM (t.locate path) >>= f t)).2.files ⊆ _
  cases t.locate path with
  | error e => exact Set.subset_union_left
  | ok p => exact h t p

lemma writes_remove (path : String) : Writes B (remove path) := by
  refine Writes.locate fun t p => ?_
  split
  · exact (files_removeAll_subset t p).trans Set.subset_union_left
  · exact Set.subset_union_left
  · exact Set.subset_union_left

lemma writes_createDirectory (path : String) : Writes B (createDirectory path) := by
  refine Writes.locate fun t p => ?_
  split
  · exact Set.subset_union_left
  · exact Set.subset_union_left
  · exact (files_put_directory_subset t p).trans Set.subset_union_left

lemma writes_createWithParents (path : String) (parents : List String) :
    Writes B (createWithParents path parents) := by
  induction parents generalizing path with
  | nil => exact writes_createDirectory path
  | cons parent more ih =>
    refine (writes_createDirectory path).tryCatch fun e => ?_
    split
    · exact (ih parent).bind (writes_createDirectory path)
    · exact Writes.throw _

lemma writes_publish (directory path : String) (b : Bytes) :
    Writes {b} (publish directory path b) := by
  refine Writes.bind ?_ (Writes.locate fun t p => ?_)
  · rw [createDirectories]
    split
    · exact fun _ => Set.subset_union_left
    · exact writes_createWithParents _ _
  · split
    · exact (files_put_file_subset t p b).trans Set.union_singleton.symm.subset
    · exact Set.subset_union_left

end

end FileTree

namespace MemoryDisk

/-- The contents of the files on a disk. -/
def files (disk : MemoryDisk) : Set Bytes := disk.tree.files

lemma files_change_subset {B : Set Bytes} {c : FileTree.Change} (h : FileTree.Writes B c)
    (w : MemoryDisk) : files ((change c).run w).2 ⊆ files w ∪ B := h w.tree

lemma run_read (path : String) (w : MemoryDisk) : (storage.read path).run w =
    (match w.tree.read path with
    | .ok b => .contents b
    | .error .missing => .missing
    | .error e => .failed e.message, w) := by
  show (MemoryDisk.read path).run w = _
  simp only [MemoryDisk.read, StateT.run_bind, StateT.run_get, pure_bind]
  rcases w.tree.read path with ⟨_ | _ | _ | _ | _⟩ | _ <;> rfl

/-- The disk in memory is good enough for a cache. -/
theorem honest_storage : storage.Honest files where
  now _ := Set.Subset.rfl
  read path w := by rw [run_read]
  contents {path w b} h := by
    rw [run_read] at h
    rcases hread : w.tree.read path with ⟨_ | _ | _ | _ | _⟩ | b'
    all_goals rw [hread] at h; cases h
    exact FileTree.mem_files_of_read hread
  remove path w :=
    (files_change_subset (FileTree.writes_remove (B := ∅) path) w).trans (Set.union_empty _).subset
  publish directory path b w :=
    (files_change_subset (FileTree.writes_publish directory path b) w).trans
      (Set.union_singleton).subset

end MemoryDisk

end ShiftReduce
