import ShiftReduce.Cache.Basic
import ShiftReduce.Proofs.Cache.Storage
import Mathlib.Logic.Function.Basic
/-!
# The records of a directory

What a directory of records is relied on for: what is read of a record stands in its place, and what
is reported to have been removed or published has been, and nothing else.

On the disk in memory the records of a directory are the files in it that have the names of
fingerprints. If the path of the directory leads straight to it, without dots, then the operations
do what they report: each record has a place of its own, nothing else is done to the places of
records, and whatever stands somewhere stands in a directory that is there.

Main statement: `MemoryDisk.dependable_storage`.
-/

namespace ShiftReduce

/-- The contract of a clock, whose seconds fit into eight bytes, and a disk with the records of a
directory. What is read is what stands at the place of the record; a removal or a publication that
is reported has taken place, and has changed no other record. Any operation may fail instead. -/
structure Storage.Dependable {σ : Type} (s : Storage (StateM σ)) (directory : String)
    (good : σ → Prop) (record : σ → Fingerprint → Reading) : Prop where
  now {w : σ} : good w → good (s.now.run w).2 ∧ record (s.now.run w).2 = record w ∧
    (s.now.run w).1 / 1000 < 2 ^ 64
  read {w : σ} (f : Fingerprint) : good w →
    good ((s.read (Cache.recordPathIn directory f)).run w).2 ∧
    record ((s.read (Cache.recordPathIn directory f)).run w).2 = record w ∧
    (((s.read (Cache.recordPathIn directory f)).run w).1 = record w f ∨
      ∃ message, ((s.read (Cache.recordPathIn directory f)).run w).1 = .failed message)
  remove {w : σ} (f : Fingerprint) : good w →
    good ((s.remove (Cache.recordPathIn directory f)).run w).2 ∧
    (((s.remove (Cache.recordPathIn directory f)).run w).1 = .ok () →
      record ((s.remove (Cache.recordPathIn directory f)).run w).2 =
        Function.update (record w) f .missing)
  /-- What is there already is not replaced, and that is no failure. -/
  publish {w : σ} (f : Fingerprint) (b : Bytes) : good w →
    good ((s.publish directory (Cache.recordPathIn directory f) b).run w).2 ∧
    (((s.publish directory (Cache.recordPathIn directory f) b).run w).1 = .ok () →
      record ((s.publish directory (Cache.recordPathIn directory f) b).run w).2 =
        Function.update (record w) f
          (if record w f = .missing then .contents b else record w f))

/-! ## Paths of records -/

namespace Path

lemma pieces_ne_nil (l : List Char) : pieces l ≠ [] := by
  cases l with
  | nil => simp [pieces]
  | cons c l =>
    rw [pieces]
    split
    · simp
    · split <;> simp

lemma pieces_of_notMem {l : List Char} (h : '/' ∉ l) : pieces l = [l] := by
  induction l with
  | nil => rfl
  | cons c l ih =>
    rw [List.mem_cons, not_or] at h
    rw [pieces, if_neg (Ne.symm h.1), ih h.2]

/-- A slash ends a piece. -/
lemma pieces_append (l l' : List Char) : pieces (l ++ '/' :: l') = pieces l ++ pieces l' := by
  induction l with
  | nil => rfl
  | cons c l ih =>
    rw [List.cons_append, pieces, pieces, ih]
    split
    · rfl
    · obtain ⟨piece, more, hl⟩ := List.exists_cons_of_ne_nil (pieces_ne_nil l)
      rw [hl]
      rfl

/-- The path of something in a directory has one step more. -/
lemma steps_join {directory inside : String} (hinside : '/' ∉ inside.toList)
    (hne : inside.toList ≠ []) :
    steps (join directory inside) = steps directory ++ [inside.toList] := by
  have hlast : (pieces inside.toList).filter (· != []) = [inside.toList] := by
    rw [pieces_of_notMem hinside]
    simpa using hne
  have habsolute : isAbsolute inside = false := by
    cases hl : inside.toList with
    | nil => exact absurd hl hne
    | cons c l =>
      rw [hl, List.mem_cons, not_or] at hinside
      simpa [isAbsolute, hl] using Ne.symm hinside.1
  rw [join, habsolute, Bool.false_or]
  split
  · next hempty =>
    rw [String.isEmpty_iff.mp hempty]
    exact hlast
  · split
    · next hslash =>
      -- a slash at the end only adds an empty piece
      obtain ⟨l, hl⟩ := List.getLast?_eq_some_iff.mp (beq_iff_eq.mp hslash)
      have hdirectory : steps directory = (pieces l).filter (· != []) := by
        rw [steps, hl, pieces_append, List.filter_append]
        exact List.append_nil _
      rw [hdirectory, steps, String.toList_append, hl, List.append_assoc, List.singleton_append,
        pieces_append, List.filter_append, hlast]
    · have hslash : "/".toList = ['/'] := rfl
      rw [steps, String.toList_append, String.toList_append, hslash, List.append_assoc,
        List.singleton_append, pieces_append, List.filter_append, hlast, steps]

/-- The path leads straight to a directory: there are no dots among its steps, and its parents are
on the way. -/
structure Straight (path : String) : Prop where
  plain : ∀ name ∈ steps path, name ≠ ['.', '.'] ∧ name ≠ ['.']
  parents : ∀ parent ∈ parents path, steps parent <+: steps path

end Path

lemma Bytes.hexDigit_injective {n m : Nat} (hn : n < 16) (hm : m < 16)
    (h : hexDigit n = hexDigit m) : n = m := by
  have hdigits : ∀ n m : Fin 16, hexDigit n = hexDigit m → n = m := by decide
  exact congrArg Fin.val (hdigits ⟨n, hn⟩ ⟨m, hm⟩ h)

lemma Bytes.hex_injective : Function.Injective Bytes.hex := by
  intro b b' h
  replace h := congrArg String.toList h
  simp only [hex, String.toList_ofList] at h
  induction b generalizing b' with
  | nil => cases b' with
    | nil => rfl
    | cons x b' => simp at h
  | cons x b ih => cases b' with
    | nil => simp at h
    | cons x' b' =>
      simp only [List.flatMap_cons, List.cons_append, List.nil_append, List.cons.injEq] at h
      have hx := x.toNat_lt
      have hx' := x'.toNat_lt
      have hhigh := hexDigit_injective (by omega) (by omega) h.1
      have hlow := hexDigit_injective (by omega) (by omega) h.2.1
      rw [ih h.2.2, UInt8.toNat_inj.mp (by omega : x.toNat = x'.toNat)]

lemma Bytes.slash_notMem_hex (b : Bytes) : '/' ∉ (hex b).toList := by
  have hdigit : ∀ n : Fin 16, hexDigit n ≠ '/' := by decide
  rw [hex, String.toList_ofList, List.mem_flatMap]
  rintro ⟨x, -, hx⟩
  have hlt := x.toNat_lt
  simp only [List.mem_cons, List.not_mem_nil, or_false] at hx
  rcases hx with hx | hx
  · exact hdigit ⟨x.toNat / 16, by omega⟩ hx.symm
  · exact hdigit ⟨x.toNat % 16, by omega⟩ hx.symm

namespace Fingerprint

/-- The name of the record of a fingerprint. -/
def recordName (f : Fingerprint) : List Char := (f.hex ++ ".lrat").toList

lemma recordName_injective : Function.Injective recordName := by
  intro f f' h
  rw [recordName, recordName, String.toList_append, String.toList_append] at h
  have hhex := Bytes.hex_injective (String.toList_inj.mp (List.append_cancel_right h))
  cases f
  cases f'
  exact congrArg Fingerprint.mk (Vector.toList_inj.mp hhex)

lemma slash_notMem_recordName (f : Fingerprint) : '/' ∉ f.recordName := by
  rw [recordName, String.toList_append, List.mem_append, not_or]
  exact ⟨Bytes.slash_notMem_hex _, by decide⟩

lemma four_lt_length_recordName (f : Fingerprint) : 4 < f.recordName.length := by
  rw [recordName, String.toList_append, List.length_append]
  have hlength : ".lrat".toList.length = 5 := rfl
  omega

/-- The place of the record of a fingerprint. -/
def recordPlace (directory : String) (f : Fingerprint) : Location :=
  Path.steps directory ++ [f.recordName]

lemma steps_recordPathIn (directory : String) (f : Fingerprint) :
    Path.steps (Cache.recordPathIn directory f) = f.recordPlace directory := by
  refine Path.steps_join f.slash_notMem_recordName fun hnil => ?_
  have hlength := f.four_lt_length_recordName
  rw [recordName, hnil] at hlength
  cases hlength

end Fingerprint

/-! ## Trees -/

namespace FileTree

variable {t : FileTree} {p q : Location} {node : FileNode}

lemma lookup_filter {β : Type} (l : List (Location × β)) (keep : Location → Bool) (p : Location) :
    (l.filter fun e => keep e.1).lookup p = if keep p then l.lookup p else none := by
  induction l with
  | nil => simp
  | cons e l ih =>
    obtain ⟨place, value⟩ := e
    by_cases hp : p = place
    · subst hp
      by_cases hkeep : keep p = true <;> simp [hkeep, ih]
    · have hne : (p == place) = false := beq_eq_false_iff_ne.mpr hp
      by_cases hkeep : keep place = true <;> simp [hkeep, ih, List.lookup_cons, hne]

lemma node?_put (hp : p ≠ []) :
    (t.put q node).node? p = if p = q then some node else t.node? p := by
  rw [node?, if_neg hp, node?, if_neg hp, put, List.lookup_cons, lookup_filter t.nodes (· != q)]
  by_cases h : p = q
  · simp [h]
  · simp [h, beq_eq_false_iff_ne.mpr h]

lemma node?_removeAll (hp : p ≠ []) :
    (t.removeAll q).node? p = if q.isPrefixOf p then none else t.node? p := by
  rw [node?, if_neg hp, node?, if_neg hp, removeAll,
    lookup_filter t.nodes (fun r => !q.isPrefixOf r)]
  cases q.isPrefixOf p <;> rfl

/-- Whatever stands somewhere stands in a directory. -/
def Tidy (t : FileTree) : Prop :=
  ∀ p node, p ≠ [] → t.node? p = some node → t.node? p.dropLast = some .directory

lemma node?_root (t : FileTree) : t.node? [] = some .directory := if_pos rfl

lemma Tidy.put (ht : t.Tidy) (hq : q ≠ []) (hparent : t.node? q.dropLast = some .directory)
    (hnone : t.node? q = none) (node : FileNode) : (t.put q node).Tidy := by
  -- the new node is nothing's parent, and its own parent is another place
  have hkeep : ∀ p, t.node? p = some .directory → (t.put q node).node? p = some .directory := by
    intro p hp
    by_cases hroot : p = []
    · rw [hroot, node?_root]
    · rw [node?_put hroot, if_neg, hp]
      rintro rfl
      rw [hnone] at hp
      cases hp
  intro p node' hp hnode
  rw [node?_put hp] at hnode
  split at hnode
  · next h =>
    rw [h]
    exact hkeep _ hparent
  · exact hkeep _ (ht p node' hp hnode)

lemma Tidy.removeAll (ht : t.Tidy) (q : Location) : (t.removeAll q).Tidy := by
  intro p node hp hnode
  rw [node?_removeAll hp] at hnode
  split at hnode
  · cases hnode
  · next hprefix =>
    have hparent := ht p node hp hnode
    by_cases hroot : p.dropLast = []
    · rw [hroot, node?_root]
    · rw [node?_removeAll hroot, if_neg, hparent]
      intro h
      exact hprefix (List.isPrefixOf_iff_prefix.mpr
        ((List.isPrefixOf_iff_prefix.mp h).trans (List.dropLast_prefix p)))

/-- Below nothing there is nothing. -/
lemma Tidy.node?_append (ht : t.Tidy) (hnone : t.node? p = none) (l : List (List Char)) :
    t.node? (p ++ l) = none := by
  have hp : p ≠ [] := by
    rintro rfl
    rw [node?_root] at hnone
    cases hnone
  induction l using List.reverseRecOn with
  | nil => rwa [List.append_nil]
  | append_singleton l name ih =>
    cases hnode : t.node? (p ++ (l ++ [name])) with
    | none => rfl
    | some node =>
      have hparent := ht _ node (by simp) hnode
      rw [← List.append_assoc, List.dropLast_concat, ih] at hparent
      cases hparent

/-! ### Following paths -/

/-- A place that a path leads to is in a directory that is there. -/
lemma Tidy.parent_of_follow (ht : t.Tidy) {names : List (List Char)}
    (h : t.follow p names = .ok q) (hp : p = [] ∨ t.node? p.dropLast = some .directory) :
    q = [] ∨ t.node? q.dropLast = some .directory := by
  induction names generalizing p with
  | nil =>
    cases h
    exact hp
  | cons name rest ih =>
    rw [follow] at h
    split at h
    · next hnode =>
      split at h
      · cases h
      · refine ih h ?_
        rw [Location.step]
        split
        · -- above a directory there is a directory
          by_cases hroot : p.dropLast = []
          · exact .inl hroot
          · have hne : p ≠ [] := by
              rintro rfl
              exact hroot rfl
            exact .inr (ht _ _ hroot (hp.resolve_left hne))
        · split
          · exact hp
          · rw [List.dropLast_concat]
            exact .inr hnode
    · cases h
    · cases h

lemma Tidy.parent_of_locate (ht : t.Tidy) {path : String} (h : t.locate path = .ok q) :
    q = [] ∨ t.node? q.dropLast = some .directory := by
  rw [locate] at h
  split at h
  · cases h
  · exact ht.parent_of_follow h (.inl rfl)

section Plain

variable {names : List (List Char)} (hplain : ∀ name ∈ names, name ≠ ['.', '.'] ∧ name ≠ ['.'])

include hplain

/-- Without dots every step leads further down. -/
lemma eq_append_of_follow (h : t.follow p names = .ok q) : q = p ++ names := by
  induction names generalizing p with
  | nil =>
    cases h
    rw [List.append_nil]
  | cons name rest ih =>
    obtain ⟨⟨hdots, hdot⟩, hrest⟩ := List.forall_mem_cons.mp hplain
    rw [follow] at h
    split at h
    · split at h
      · cases h
      · rw [Location.step, if_neg hdots, if_neg hdot] at h
        rw [ih hrest h, List.append_assoc, List.singleton_append]
    · cases h
    · cases h

/-- If a path leads nowhere, there is nothing at its end. -/
lemma Tidy.node?_of_follow_missing (ht : t.Tidy) (h : t.follow p names = .error .missing) :
    t.node? (p ++ names) = none := by
  induction names generalizing p with
  | nil => cases h
  | cons name rest ih =>
    obtain ⟨⟨hdots, hdot⟩, hrest⟩ := List.forall_mem_cons.mp hplain
    rw [follow] at h
    split at h
    · split at h
      · cases h
      · rw [Location.step, if_neg hdots, if_neg hdot] at h
        rw [← ih hrest h, List.append_assoc, List.singleton_append]
    · cases h
    · next hnone => exact ht.node?_append hnone _

end Plain

/-! ### Changes -/

section Changes

variable {path directory : String} {b : Bytes}

/-- A change that begins by following a path. -/
lemma change_locate (t : FileTree) (path : String) (k : FileTree → Location → Change) :
    t.change (do
      let t ← get
      let p ← t.locate path
      k t p) =
    match t.locate path with
    | .error e => (.error e, t)
    | .ok p => t.change (k t p) := by
  show t.change (liftM (t.locate path) >>= k t) = _
  cases t.locate path <;> rfl

lemma change_remove (t : FileTree) (path : String) : t.change (remove path) =
    match t.locate path with
    | .error e => (.error e, t)
    | .ok p =>
      match t.node? p with
      | some (.file _) => (.ok (), t.removeAll p)
      | some .directory => (.error .isDirectory, t)
      | none => (.error .missing, t) := by
  rw [remove, change_locate]
  cases t.locate path with
  | error e => rfl
  | ok p =>
    dsimp only
    rcases t.node? p with _ | ⟨_ | _⟩ <;> rfl

lemma change_createDirectory (t : FileTree) (path : String) : t.change (createDirectory path) =
    match t.locate path with
    | .error e => (.error e, t)
    | .ok p =>
      match t.node? p with
      | some .directory => (.ok (), t)
      | some (.file _) => (.error .occupied, t)
      | none => (.ok (), t.put p .directory) := by
  rw [createDirectory, change_locate]
  cases t.locate path with
  | error e => rfl
  | ok p =>
    dsimp only
    rcases t.node? p with _ | ⟨_ | _⟩ <;> rfl

lemma change_writeNew (t : FileTree) (path : String) (b : Bytes) : t.change (writeNew path b) =
    match t.locate path with
    | .error e => (.error e, t)
    | .ok p => (.ok (), if (t.node? p).isNone then t.put p (.file b) else t) := by
  rw [writeNew, change_locate]
  cases t.locate path with
  | error e => rfl
  | ok p =>
    dsimp only
    split <;> rfl

/-- The second tree is tidy if the first one is, and has the same at the given places. -/
def Spares (places : Set Location) (c : Change) : Prop :=
  ∀ t : FileTree, t.Tidy → (t.change c).2.Tidy ∧ ∀ p ∈ places, (t.change c).2.node? p = t.node? p

variable {places : Set Location}

lemma spares_createDirectory (hplain : ∀ name ∈ Path.steps path, name ≠ ['.', '.'] ∧ name ≠ ['.'])
    (hpath : Path.steps path ∉ places) : Spares places (createDirectory path) := by
  intro t ht
  rw [change_createDirectory]
  cases hlocate : t.locate path with
  | error e => exact ⟨ht, fun _ _ => rfl⟩
  | ok q =>
    have hparent := ht.parent_of_locate hlocate
    rw [locate] at hlocate
    split at hlocate
    · cases hlocate
    have hq : q = Path.steps path := eq_append_of_follow hplain hlocate
    dsimp only
    rcases hnode : t.node? q with _ | ⟨_ | _⟩
    · have hne : q ≠ [] := by
        rintro rfl
        rw [node?_root] at hnode
        cases hnode
      refine ⟨ht.put hne (hparent.resolve_left hne) hnode _, fun p hp => ?_⟩
      by_cases hroot : p = []
      · rw [hroot, node?_root, node?_root]
      · rw [node?_put hroot, if_neg]
        rintro rfl
        exact hpath (hq ▸ hp)
    · exact ⟨ht, fun _ _ => rfl⟩
    · exact ⟨ht, fun _ _ => rfl⟩

lemma Spares.bind {c d : Change} (hc : Spares places c) (hd : Spares places d) :
    Spares places (do c; d) := by
  intro t ht
  obtain ⟨htidy, hsame⟩ := hc t ht
  rw [change_bind]
  rcases h : t.change c with ⟨e | _, t'⟩
  all_goals rw [h] at htidy hsame
  · exact ⟨htidy, hsame⟩
  · obtain ⟨htidy', hsame'⟩ := hd t' htidy
    exact ⟨htidy', fun p hp => (hsame' p hp).trans (hsame p hp)⟩

lemma Spares.tryCatch {c : Change} {handle : Obstacle → Change} (hc : Spares places c)
    (hh : ∀ e, Spares places (handle e)) : Spares places (tryCatch c handle) := by
  intro t ht
  obtain ⟨htidy, hsame⟩ := hc t ht
  rw [change_tryCatch]
  rcases h : t.change c with ⟨e | _, t'⟩
  all_goals rw [h] at htidy hsame
  · obtain ⟨htidy', hsame'⟩ := hh e t' htidy
    exact ⟨htidy', fun p hp => (hsame' p hp).trans (hsame p hp)⟩
  · exact ⟨htidy, hsame⟩

lemma spares_createWithParents {parents : List String}
    (hplain : ∀ path' ∈ path :: parents,
      ∀ name ∈ Path.steps path', name ≠ ['.', '.'] ∧ name ≠ ['.'])
    (hpath : ∀ path' ∈ path :: parents, Path.steps path' ∉ places) :
    Spares places (createWithParents path parents) := by
  induction parents generalizing path with
  | nil =>
    exact spares_createDirectory (hplain path List.mem_cons_self) (hpath path List.mem_cons_self)
  | cons parent more ih =>
    have hcreate : Spares places (createDirectory path) :=
      spares_createDirectory (hplain path List.mem_cons_self) (hpath path List.mem_cons_self)
    have hparents := ih (List.forall_mem_cons.mp hplain).2 (List.forall_mem_cons.mp hpath).2
    refine hcreate.tryCatch fun e => ?_
    split
    · exact hparents.bind hcreate
    · exact fun _ ht => ⟨ht, fun _ _ => rfl⟩

/-- Creating a directory that is led to straight touches no place of a record in it. -/
lemma spares_createDirectories (h : Path.Straight directory) :
    Spares (Set.range (Fingerprint.recordPlace directory)) (createDirectories directory) := by
  have hsteps : ∀ path ∈ directory :: Path.parents directory,
      Path.steps path <+: Path.steps directory :=
    List.forall_mem_cons.mpr ⟨List.prefix_rfl, h.parents⟩
  rw [createDirectories]
  split
  · exact fun _ ht => ⟨ht, fun _ _ => rfl⟩
  · refine spares_createWithParents
      (fun path hpath name hname => h.plain name ((hsteps path hpath).subset hname)) ?_
    rintro path hpath ⟨f, hf⟩
    have hlength := (hsteps path hpath).length_le
    rw [← hf, Fingerprint.recordPlace, List.length_append, List.length_singleton] at hlength
    omega

end Changes

end FileTree

/-! ## As storage -/

namespace MemoryDisk

variable {disk : MemoryDisk} {directory : String} {f f' : Fingerprint}

/-- The tree is tidy, and the seconds of the clock fit into eight bytes. -/
def Sound (disk : MemoryDisk) : Prop := disk.tree.Tidy ∧ disk.time / 1000 < 2 ^ 64

/-- What can be read of a node. -/
def reading : Option FileNode → Reading
  | none => .missing
  | some (.file b) => .contents b
  | some .directory => .failed Obstacle.isDirectory.message

/-- What stands at the place of a record. -/
def record (directory : String) (disk : MemoryDisk) (f : Fingerprint) : Reading :=
  reading (disk.tree.node? (f.recordPlace directory))

lemma recordPlace_ne_nil (directory : String) (f : Fingerprint) :
    f.recordPlace directory ≠ [] := by
  simp [Fingerprint.recordPlace]

lemma recordPlace_injective (directory : String) :
    Function.Injective (Fingerprint.recordPlace directory) := fun _ _ h =>
  Fingerprint.recordName_injective (List.singleton_inj.mp (List.append_cancel_left h))

/-- The names of records have no dots that lead elsewhere. -/
lemma plain_recordPlace (h : Path.Straight directory) (f : Fingerprint) :
    ∀ name ∈ f.recordPlace directory, name ≠ ['.', '.'] ∧ name ≠ ['.'] := by
  intro name hname
  rcases List.mem_append.mp hname with hname | hname
  · exact h.plain name hname
  · rw [List.mem_singleton.mp hname]
    have hlength := f.four_lt_length_recordName
    constructor <;>
    · intro hdots
      rw [hdots] at hlength
      simp at hlength

section

variable (h : Path.Straight directory)

include h

lemma locate_eq_ok {t : FileTree} {q : Location}
    (hlocate : t.locate (Cache.recordPathIn directory f) = .ok q) :
    q = f.recordPlace directory := by
  rw [FileTree.locate, Fingerprint.steps_recordPathIn] at hlocate
  split at hlocate
  · cases hlocate
  · exact FileTree.eq_append_of_follow (p := []) (plain_recordPlace h f) hlocate

lemma node?_of_locate_missing {t : FileTree} (ht : t.Tidy)
    (hlocate : t.locate (Cache.recordPathIn directory f) = .error .missing) :
    t.node? (f.recordPlace directory) = none := by
  rw [FileTree.locate, Fingerprint.steps_recordPathIn] at hlocate
  split at hlocate
  · cases hlocate
  · exact ht.node?_of_follow_missing (p := []) (plain_recordPlace h f) hlocate

lemma reading_of_read (ht : disk.tree.Tidy) :
    ((storage.read (Cache.recordPathIn directory f)).run disk).1 = record directory disk f ∨
      ∃ message,
        ((storage.read (Cache.recordPathIn directory f)).run disk).1 = .failed message := by
  rw [run_read, record]
  cases hlocate : disk.tree.locate (Cache.recordPathIn directory f) with
  | error e =>
    have hread : disk.tree.read (Cache.recordPathIn directory f) = .error e := by
      simp only [FileTree.read, hlocate, bind, Except.bind]
    rw [hread]
    cases e with
    | missing =>
      rw [node?_of_locate_missing h ht hlocate]
      exact .inl rfl
    | _ => exact .inr ⟨_, rfl⟩
  | ok q =>
    rw [← locate_eq_ok h hlocate]
    have hread : disk.tree.read (Cache.recordPathIn directory f) =
        match disk.tree.node? q with
        | some (.file contents) => .ok contents
        | some .directory => .error .isDirectory
        | none => .error .missing := by
      simp only [FileTree.read, hlocate, bind, Except.bind]
      rfl
    rw [hread]
    rcases disk.tree.node? q with _ | ⟨_ | _⟩ <;> exact .inl rfl

end

lemma run_change (c : FileTree.Change) (disk : MemoryDisk) : (change c).run disk =
    ((disk.tree.change c).1.mapError Obstacle.message,
      { disk with tree := (disk.tree.change c).2 }) := rfl

lemma run_remove (path : String) (disk : MemoryDisk) : (storage.remove path).run disk =
    ((disk.tree.change (FileTree.remove path)).1.mapError Obstacle.message,
      { disk with tree := (disk.tree.change (FileTree.remove path)).2 }) :=
  run_change (FileTree.remove path) disk

lemma run_publish (directory path : String) (b : Bytes) (disk : MemoryDisk) :
    (storage.publish directory path b).run disk =
    ((disk.tree.change (FileTree.publish directory path b)).1.mapError Obstacle.message,
      { disk with tree := (disk.tree.change (FileTree.publish directory path b)).2 }) :=
  run_change (FileTree.publish directory path b) disk

/-- Removing a record empties its place. -/
lemma record_removeAll (directory : String) (disk : MemoryDisk) (f : Fingerprint) :
    record directory { disk with tree := disk.tree.removeAll (f.recordPlace directory) } =
    Function.update (record directory disk) f .missing := by
  funext f'
  rw [record, FileTree.node?_removeAll (recordPlace_ne_nil directory f')]
  by_cases hf : f' = f
  · rw [hf, Function.update_self, if_pos (List.isPrefixOf_iff_prefix.mpr List.prefix_rfl)]
    rfl
  · rw [Function.update_of_ne hf, if_neg]
    · rfl
    · intro hprefix
      have heq := (List.isPrefixOf_iff_prefix.mp hprefix).eq_of_length
        (by simp [Fingerprint.recordPlace])
      exact hf (recordPlace_injective directory heq).symm

/-- A new record fills its place. -/
lemma record_put (directory : String) (disk : MemoryDisk) (f : Fingerprint) (b : Bytes) :
    record directory { disk with tree := disk.tree.put (f.recordPlace directory) (.file b) } =
    Function.update (record directory disk) f (.contents b) := by
  funext f'
  rw [record, FileTree.node?_put (recordPlace_ne_nil directory f')]
  by_cases hf : f' = f
  · rw [hf, Function.update_self, if_pos rfl]
    rfl
  · rw [Function.update_of_ne hf, if_neg fun heq => hf (recordPlace_injective directory heq)]
    rfl

/-- On the disk in memory the operations on the records of a directory do what they report. -/
theorem dependable_storage (h : Path.Straight directory) :
    storage.Dependable directory Sound (record directory) where
  now hw := ⟨hw, rfl, hw.2⟩
  read f hw := by
    refine ⟨?_, ?_, reading_of_read h hw.1⟩ <;> rw [run_read]
    exact hw
  remove {w} f hw := by
    rw [run_remove, FileTree.change_remove]
    cases hlocate : w.tree.locate (Cache.recordPathIn directory f) with
    | error e => exact ⟨hw, nofun⟩
    | ok q =>
      obtain rfl := locate_eq_ok h hlocate
      dsimp only
      rcases w.tree.node? (f.recordPlace directory) with _ | ⟨b | _⟩
      · exact ⟨hw, nofun⟩
      · exact ⟨⟨hw.1.removeAll _, hw.2⟩, fun _ => record_removeAll ..⟩
      · exact ⟨hw, nofun⟩
  publish {w} f b hw := by
    obtain ⟨htidy, hsame⟩ := FileTree.spares_createDirectories h w.tree hw.1
    rw [run_publish, FileTree.publish, FileTree.change_bind]
    rcases hcreate : w.tree.change (FileTree.createDirectories directory) with ⟨e | _, tree⟩
    all_goals rw [hcreate] at htidy hsame
    · exact ⟨⟨htidy, hw.2⟩, nofun⟩
    have hrecord : record directory { w with tree } = record directory w := funext fun f' =>
      congrArg reading (hsame _ ⟨f', rfl⟩)
    dsimp only
    rw [FileTree.change_writeNew]
    cases hlocate : tree.locate (Cache.recordPathIn directory f) with
    | error e => exact ⟨⟨htidy, hw.2⟩, nofun⟩
    | ok q =>
      have hparent := htidy.parent_of_locate hlocate
      obtain rfl := locate_eq_ok h hlocate
      rw [← hrecord]
      dsimp only
      cases hnode : tree.node? (f.recordPlace directory) with
      | none =>
        have hmissing : record directory { w with tree } f = .missing := congrArg reading hnode
        refine ⟨⟨htidy.put (recordPlace_ne_nil _ _)
          (hparent.resolve_left (recordPlace_ne_nil _ _)) hnode _, hw.2⟩, fun _ => ?_⟩
        rw [if_pos hmissing]
        exact record_put directory { w with tree } f b
      | some node =>
        have hoccupied : record directory { w with tree } f ≠ .missing := by
          rw [record]
          simp only [hnode]
          cases node <;> exact nofun
        refine ⟨⟨htidy, hw.2⟩, fun _ => ?_⟩
        rw [if_neg hoccupied, Function.update_eq_self]
        rfl

end MemoryDisk

end ShiftReduce
