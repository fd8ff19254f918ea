import ShiftReduce.Cache.Basic
import ShiftReduce.Proofs.Automaton.Construction
import ShiftReduce.Proofs.Cache.Record
import ShiftReduce.Proofs.Cache.Storage
import ShiftReduce.Proofs.Grammar.Encode
/-!
# A cache is transparent

The table that comes from a cache is the one that would be built, and so is the error. One invariant
carries this: a table in memory under a fingerprint, and a table in a record that can be read, is
that of every grammar of the fingerprint. Calls keep the invariant because grammars of one
fingerprint have one table, unless the hash collides. The surroundings keep it as long as nobody
writes a record that can be read and holds the table of another grammar.

Main statement: `Cache.fetch_transparent`.
-/

namespace ShiftReduce

variable {Γ : Set Grammar} {f : Fingerprint} {t t' : ActionTable} {g : Grammar}

/-! ## Tables that may be given for a fingerprint -/

/-- The table is that of every grammar of the fingerprint, of the grammars that matter. -/
def ActionTable.Serves (Γ : Set Grammar) (f : Fingerprint) (t : ActionTable) : Prop :=
  ∀ g ∈ Γ, g.fingerprint = f → g.table = .ok t

/-- If the bytes of a file are a record, its table may be given for the fingerprint that it
claims. -/
def Bytes.Genuine (Γ : Set Grammar) (b : Bytes) : Prop :=
  ∀ r, Record.decode b = .ok r → r.table.Serves Γ r.table.fingerprint

/-- All tables in memory may be given for their fingerprints. -/
def Memory.Serves (Γ : Set Grammar) (m : Memory) : Prop :=
  ∀ e ∈ m.entries, e.2.table.Serves Γ e.1

/-- The hash tells the strings apart that stand for the grammars. -/
def Grammar.NoCollision (Γ : Set Grammar) : Prop := Set.InjOn Sha256.hash (Grammar.encode '' Γ)

lemma Grammar.fingerprint_of_table (h : g.table = .ok t) : t.fingerprint = g.fingerprint := by
  rw [table] at h
  cases ha : g.automaton with
  | error e => simp [ha, Except.map] at h
  | ok a =>
    simp only [ha, Except.map, Except.ok.injEq] at h
    rw [← h, Automaton.table]

namespace ActionTable

lemma Serves.eq_of_table (h : t'.Serves Γ t.fingerprint) (hg : g ∈ Γ) (ht : g.table = .ok t) :
    t' = t :=
  Except.ok.inj ((h g hg (Grammar.fingerprint_of_table ht).symm).symm.trans ht)

/-- A table that was built may be given for its fingerprint. -/
lemma serves_of_table (hΓ : Grammar.NoCollision Γ) (hg : g ∈ Γ) (h : g.table = .ok t) :
    t.Serves Γ t.fingerprint := by
  intro g' hg' hf
  have hhash : Sha256.hash g'.encode = Sha256.hash g.encode :=
    congrArg Fingerprint.digest (hf.trans (Grammar.fingerprint_of_table h))
  have hencode : g'.encode = g.encode :=
    hΓ (Set.mem_image_of_mem _ hg') (Set.mem_image_of_mem _ hg) hhash
  exact (Grammar.table_eq_of_encode_eq hencode).trans h

lemma Serves.genuine_encode (h : t.Serves Γ t.fingerprint) (writtenAt : Nat) :
    (Record.encode ⟨writtenAt, t⟩).Genuine Γ := by
  intro r hr
  rw [Record.table_of_decode_encode hr]
  exact h

end ActionTable

/-! ## Memory -/

namespace Memory

variable {m : Memory} {now : Nat}

lemma serves_empty (lifetime : Nat) : (empty lifetime).Serves Γ :=
  fun _ h => absurd h List.not_mem_nil

lemma serves_clear (m : Memory) : m.clear.Serves Γ := fun _ h => absurd h List.not_mem_nil

lemma Serves.erase (hm : m.Serves Γ) (f : Fingerprint) : (m.erase f).Serves Γ :=
  fun e he => hm e (List.mem_filter.mp he).1

lemma Serves.lookup (hm : m.Serves Γ) :
    (∀ t, (m.lookup now f).1 = some t → t.Serves Γ f) ∧ (m.lookup now f).2.Serves Γ := by
  rw [Memory.lookup]
  split
  · exact ⟨nofun, hm⟩
  case h_2 s hs =>
    split
    · refine ⟨fun t h => ?_, hm⟩
      cases h
      exact hm _ (State.mem_of_lookup hs)
    · exact ⟨nofun, hm.erase f⟩

/-- The table of the first writer stays, but it is as good as the one that is put in. -/
lemma Serves.insert (hm : m.Serves Γ) (ht : t.Serves Γ t.fingerprint) :
    (m.insert now t).1.Serves Γ t.fingerprint ∧ (m.insert now t).2.Serves Γ := by
  have hcons : ∀ m : Memory, m.Serves Γ →
      Memory.Serves Γ { m with entries := (t.fingerprint, ⟨now, t⟩) :: m.entries } :=
    fun m hm => List.forall_mem_cons.mpr ⟨ht, hm⟩
  rw [Memory.insert]
  split
  case h_1 s hs =>
    split
    · exact ⟨hm _ (State.mem_of_lookup hs), hm⟩
    · exact ⟨ht, hcons _ (hm.erase _)⟩
  · exact ⟨ht, hcons m hm⟩

end Memory

/-! ## The cache -/

namespace Cache

variable {σ : Type} {s : Storage (StateM σ)} {files : σ → Set Bytes} {c : Cache} {w : σ}

/-- The files of a world are no records or genuine ones. -/
def Clean (files : σ → Set Bytes) (Γ : Set Grammar) (w : σ) : Prop := ∀ b ∈ files w, b.Genuine Γ

section

variable (hs : s.Honest files)

include hs

lemma keeps_now : Keeps (Clean files Γ) s.now fun _ => True :=
  fun w hw => ⟨trivial, fun b hb => hw b (hs.now w hb)⟩

lemma keeps_read (path : String) :
    Keeps (Clean files Γ) (s.read path) fun r => ∀ b, r = .contents b → b.Genuine Γ :=
  fun w hw => ⟨fun b hb => hw b (hs.contents hb), fun b hb => hw b (hs.read path w hb)⟩

lemma keeps_discard (path : String) : Keeps (Clean files Γ) (discard s path) fun _ => True := by
  refine Keeps.bind (Q := fun _ => True)
    (fun w hw => ⟨trivial, fun b hb => hw b (hs.remove path w hb)⟩) fun r _ => ?_
  split <;> exact Keeps.pure trivial

lemma keeps_store (directory : String) (ht : t.Serves Γ t.fingerprint) :
    Keeps (Clean files Γ) (store s directory t) fun _ => True := by
  refine Keeps.bind (keeps_now hs) fun now _ => Keeps.bind (Q := fun _ => True) ?_ fun r _ => ?_
  · intro w hw
    refine ⟨trivial, fun b hb => ?_⟩
    rcases hs.publish _ _ _ w hb with rfl | hb
    · exact ht.genuine_encode _
    · exact hw b hb
  · split <;> exact Keeps.pure trivial

/-- What is loaded may be given for the fingerprint it was asked for. -/
lemma keeps_load (config : CacheConfig) (directory : String) (f : Fingerprint) :
    Keeps (Clean files Γ) (load s config directory f) fun r =>
      ∀ t, r.1 = .ok (some t) → t.Serves Γ f := by
  refine Keeps.bind (keeps_read hs _) fun r hr => ?_
  split
  · exact Keeps.pure fun _ h => by cases h
  · exact Keeps.pure fun _ h => by cases h
  case h_3 bytes =>
    split
    · exact (keeps_discard hs _).bind fun _ _ => Keeps.pure fun _ h => by cases h
    case h_2 record hrecord =>
      refine (keeps_now hs).bind fun now _ => ?_
      split
      · exact (keeps_discard hs _).bind fun _ _ => Keeps.pure fun _ h => by cases h
      · split
        case isTrue hf =>
          refine Keeps.pure fun t ht => ?_
          cases ht
          exact hf ▸ hr bytes rfl record hrecord
        · exact (keeps_discard hs _).bind fun _ _ => Keeps.pure fun _ h => by cases h

lemma keeps_keep (hc : c.memory.Serves Γ) (ht : t.Serves Γ t.fingerprint) :
    Keeps (Clean files Γ) (c.keep s t) fun r =>
      r.1.Serves Γ t.fingerprint ∧ r.2.memory.Serves Γ :=
  (keeps_now hs).bind fun _ _ => Keeps.pure (hc.insert ht)

/-- The answer is what is built, and the cache stays good. -/
def Answers (Γ : Set Grammar) (g : Grammar) (r : Fetched) : Prop :=
  r.result = g.table ∧ r.cache.memory.Serves Γ

lemma keeps_build (hΓ : Grammar.NoCollision Γ) (hg : g ∈ Γ) (hc : c.memory.Serves Γ) :
    Keeps (Clean files Γ) (c.build s g) (Answers Γ g) := by
  rw [build]
  split
  case h_1 e he => exact Keeps.pure ⟨he.symm, hc⟩
  case h_2 t ht =>
    have hserves := ActionTable.serves_of_table hΓ hg ht
    refine (keeps_keep hs hc hserves).bind ?_
    rintro ⟨t', c'⟩ ⟨ht', hc'⟩
    -- the table that was kept is the one that was built
    cases ht'.eq_of_table hg ht
    dsimp only
    split
    · exact Keeps.pure ⟨ht.symm, hc'⟩
    · exact (keeps_store hs _ hserves).bind fun _ _ => Keeps.pure ⟨ht.symm, hc'⟩

lemma keeps_loadOrBuild (hΓ : Grammar.NoCollision Γ) (hg : g ∈ Γ) (hc : c.memory.Serves Γ) :
    Keeps (Clean files Γ) (c.loadOrBuild s g) (Answers Γ g) := by
  unfold loadOrBuild
  extract_lets f resume
  have hresume : ∀ r : Except LoadFault (Option ActionTable) × List CacheEvent,
      (∀ t, r.1 = .ok (some t) → t.Serves Γ f) →
        Keeps (Clean files Γ) (resume r) (Answers Γ g) := by
    rintro ⟨found, events⟩ hload
    simp only [resume]
    split
    case h_1 t =>
      have htable : g.table = .ok t := hload t rfl g hg rfl
      refine (keeps_keep hs hc (ActionTable.serves_of_table hΓ hg htable)).bind ?_
      rintro ⟨t', c'⟩ ⟨ht', hc'⟩
      cases ht'.eq_of_table hg htable
      exact Keeps.pure ⟨htable.symm, hc'⟩
    all_goals exact (keeps_build hs hΓ hg hc).bind fun _ h => Keeps.pure h
  split
  · exact (Keeps.pure nofun).bind hresume
  · exact (keeps_load hs _ _ f).bind hresume

lemma keeps_fetch (hΓ : Grammar.NoCollision Γ) (hg : g ∈ Γ) (hc : c.memory.Serves Γ) :
    Keeps (Clean files Γ) (c.fetch s g) (Answers Γ g) := by
  rw [fetch]
  split
  · refine (keeps_now hs).bind fun now _ => ?_
    have hlookup : (∀ t, (c.memory.lookup now g.fingerprint).1 = some t →
        t.Serves Γ g.fingerprint) ∧ (c.memory.lookup now g.fingerprint).2.Serves Γ := hc.lookup
    rcases hm : c.memory.lookup now g.fingerprint with ⟨_ | t, memory⟩
    all_goals rw [hm] at hlookup
    · exact keeps_loadOrBuild hs hΓ hg hlookup.2
    · exact Keeps.pure ⟨(hlookup.1 t rfl g hg rfl).symm, hlookup.2⟩
  · exact Keeps.pure ⟨rfl, hc⟩

end

/-- The caches and worlds that come about when tables of the given grammars are fetched from a new
cache, and between the calls anything happens to it and to the files: it is switched on or off,
cleared, or replaced by a new one; time passes, files vanish, and are overwritten with bytes that
are no record, or a genuine one. -/
inductive Reached (s : Storage (StateM σ)) (files : σ → Set Bytes) (Γ : Set Grammar) :
    Cache → σ → Prop
  | start (config : CacheConfig) {w : σ} : Clean files Γ w → Reached s files Γ (ofConfig config) w
  | fetched {c : Cache} {w : σ} {g : Grammar} : Reached s files Γ c w → g ∈ Γ →
      Reached s files Γ ((c.fetch s g).run w).1.cache ((c.fetch s g).run w).2
  | switched {c : Cache} {w : σ} (enabled : Bool) : Reached s files Γ c w →
      Reached s files Γ (c.setEnabled enabled) w
  | cleared {c : Cache} {w : σ} : Reached s files Γ c w → Reached s files Γ c.clearMemory w
  | replaced {c : Cache} {w : σ} (config : CacheConfig) : Reached s files Γ c w →
      Reached s files Γ (ofConfig config) w
  | disturbed {c : Cache} {w w' : σ} : Reached s files Γ c w →
      (∀ b ∈ files w', b ∈ files w ∨ b.Genuine Γ) → Reached s files Γ c w'

/-- The invariant: whatever has happened, the tables in memory and on disk are good. -/
lemma Reached.serves (hs : s.Honest files) (hΓ : Grammar.NoCollision Γ)
    (h : Reached s files Γ c w) : c.memory.Serves Γ ∧ Clean files Γ w := by
  induction h with
  | start config hw => exact ⟨Memory.serves_empty _, hw⟩
  | fetched _ hg ih =>
    obtain ⟨⟨-, hc⟩, hw⟩ := keeps_fetch hs hΓ hg ih.1 _ ih.2
    exact ⟨hc, hw⟩
  | switched _ _ ih => exact ih
  | cleared _ ih => exact ⟨Memory.serves_clear _, ih.2⟩
  | replaced config _ ih => exact ⟨Memory.serves_empty _, ih.2⟩
  | disturbed _ hw ih => exact ⟨ih.1, fun b hb => (hw b hb).elim (ih.2 b) id⟩

/-- Whatever has happened, a cache gives the table that is built for a grammar, and the error if
there is none. One that is switched off changes neither itself nor anything outside. -/
theorem fetch_transparent (hs : s.Honest files) (hΓ : Grammar.NoCollision Γ)
    (h : Reached s files Γ c w) (hg : g ∈ Γ) :
    ((c.fetch s g).run w).1.result = g.table ∧
      (c.enabled = false → ((c.fetch s g).run w).1.cache = c ∧ ((c.fetch s g).run w).2 = w) := by
  obtain ⟨hc, hw⟩ := h.serves hs hΓ
  refine ⟨(keeps_fetch hs hΓ hg hc w hw).1.1, fun hoff => ?_⟩
  simp only [fetch, hoff, Bool.false_eq_true, if_false]
  exact ⟨rfl, rfl⟩

/-- A cache with a directory. -/
def onDisk : Cache := ofConfig ⟨true, 600000, 3600000, some "/records"⟩

/-- Two hours later the directory of the records is gone, and there is a file in its place. -/
def lostDirectory : MemoryDisk :=
  ⟨7200000, FileTree.empty.put ["records".toList] (.file [76, 82, 65, 84])⟩

/-- A grammar that differs from `Grammar.nested` in its name only. -/
def renamed : Grammar := { Grammar.nested with name := some "S" }

lemma noCollision_renamed : Grammar.NoCollision {Grammar.nested, renamed} := by
  have hencode : renamed.encode = Grammar.nested.encode := rfl
  rw [Grammar.NoCollision, Set.image_pair, hencode, Set.pair_eq_singleton]
  exact Set.injOn_singleton _ _

lemma reached_lostDirectory :
    Reached MemoryDisk.storage MemoryDisk.files {Grammar.nested, renamed}
      ((onDisk.fetch MemoryDisk.storage Grammar.nested).run ⟨0, .empty⟩).1.cache lostDirectory := by
  have hclean : Clean MemoryDisk.files {Grammar.nested, renamed} ⟨0, .empty⟩ :=
    fun b ⟨_, hb⟩ => absurd hb List.not_mem_nil
  have hstart : Reached MemoryDisk.storage MemoryDisk.files {Grammar.nested, renamed} onDisk
      ⟨0, .empty⟩ := .start _ hclean
  refine (hstart.fetched (g := Grammar.nested) (Set.mem_insert _ _)).disturbed ?_
  rintro b ⟨p, hb⟩
  refine .inr ?_
  cases List.mem_singleton.mp hb
  have hdecode : Record.decode [76, 82, 65, 84] = .error .truncated := if_pos (by decide)
  intro r hr
  rw [hdecode] at hr
  cases hr

/-- With a table in memory that has expired, and no place for records, the table of a grammar with
another name is built. -/
theorem fetch_renamed : MemoryDisk.storage.Honest MemoryDisk.files ∧
    Grammar.NoCollision {Grammar.nested, renamed} ∧
    Reached MemoryDisk.storage MemoryDisk.files {Grammar.nested, renamed}
      ((onDisk.fetch MemoryDisk.storage Grammar.nested).run ⟨0, .empty⟩).1.cache lostDirectory ∧
    renamed ∈ ({Grammar.nested, renamed} : Set Grammar) ∧
    ((((onDisk.fetch MemoryDisk.storage Grammar.nested).run ⟨0, .empty⟩).1.cache.fetch
      MemoryDisk.storage renamed).run lostDirectory).1.result = renamed.table ∧
    (((((onDisk.fetch MemoryDisk.storage Grammar.nested).run ⟨0, .empty⟩).1.cache.setEnabled
      false).fetch MemoryDisk.storage renamed).run lostDirectory).2 = lostDirectory := by
  have hmem : renamed ∈ ({Grammar.nested, renamed} : Set Grammar) := Set.mem_insert_of_mem _ rfl
  have hon := fetch_transparent MemoryDisk.honest_storage noCollision_renamed
    reached_lostDirectory hmem
  have hoff := fetch_transparent MemoryDisk.honest_storage noCollision_renamed
    (reached_lostDirectory.switched false) hmem
  exact ⟨MemoryDisk.honest_storage, noCollision_renamed, reached_lostDirectory, hmem, hon.1,
    (hoff.2 rfl).2⟩

end Cache

end ShiftReduce
