import ShiftReduce.Proofs.Cache.Directory
import ShiftReduce.Proofs.Cache.Intact
import ShiftReduce.Proofs.Cache.Transparent
/-!
# Records heal

On a disk whose operations do what they report, a table that is not in memory is fetched in one of
two ways. If the record of its fingerprint can be used, the table is taken from there and the record
stays as it is. Otherwise the record, if there is one, is removed before the table is built, so that
nothing is in the way when the new record is published. The new record is stamped with the time at
which it is stored, so that it can be used from then on until its lifetime is over. So a record that
is damaged, expired or that of another grammar is met only once. No other record is touched, and
where the grammar has no table nothing is stored.

Main statement: `Cache.fetch_heals`.
-/

namespace ShiftReduce

/-! ## Failures and room -/

/-- An operation on a file has failed. -/
def CacheEvent.isFailure : CacheEvent → Bool
  | .ignored _ (.unreadable _) => true
  | .notRemoved _ _ => true
  | .notStored _ _ => true
  | _ => false

/-- The numbers of the grammar and of its table have room in a record. -/
structure Grammar.Recordable (g : Grammar) : Prop where
  rules : ∀ r ∈ g.rules, r.id < wordRange
  width : g.symbols.size ≤ wordRange
  states : ∀ t, g.table = .ok t → t.stateCount ≤ wordRange
  payload : ∀ t, g.table = .ok t → (Record.payload t).length < 2 ^ 64

namespace Memory

variable {m : Memory} {now : Nat} {f : Fingerprint} {t : ActionTable}

lemma lookup_erase_self (m : Memory) (f : Fingerprint) : (m.erase f).entries.lookup f = none := by
  refine List.lookup_eq_none_iff.mpr fun e he => ?_
  have hne := (List.mem_filter.mp he).2
  rw [bne_iff_ne] at hne
  exact bne_iff_ne.mpr (Ne.symm hne)

/-- After a vain search the memory has no table of the fingerprint, not even an expired one, and
none that it did not have. -/
lemma lookup_none (h : (m.lookup now f).1 = none) :
    (m.lookup now f).2.entries.lookup f = none ∧
      ∀ e ∈ (m.lookup now f).2.entries, e ∈ m.entries := by
  cases hfound : m.entries.lookup f with
  | none =>
    have hlookup : m.lookup now f = (none, m) := by rw [lookup, hfound]
    rw [hlookup]
    exact ⟨hfound, fun _ he => he⟩
  | some stored =>
    by_cases halive : m.isAlive now stored = true
    · rw [lookup, hfound] at h
      simp [halive] at h
    · have hlookup : m.lookup now f = (none, m.erase f) := by
        rw [lookup, hfound]
        exact if_neg halive
      rw [hlookup]
      exact ⟨lookup_erase_self m f, fun e he => (List.mem_filter.mp he).1⟩

lemma insert_of_lookup_none (h : m.entries.lookup t.fingerprint = none) :
    (m.insert now t).1 = t := by
  rw [insert, h]

end Memory

namespace Cache

variable {σ α β : Type} {s : Storage (StateM σ)} {directory : String} {good : σ → Prop}
  {record : σ → Fingerprint → Reading} {c : Cache} {g : Grammar} {f : Fingerprint}
  {t : ActionTable} {w : σ} {config : CacheConfig} {seconds : Nat} {b : Bytes}

lemma run_bind (x : StateM σ α) (k : α → StateM σ β) (w : σ) :
    (x >>= k).run w = (k (x.run w).1).run (x.run w).2 := rfl

lemma run_pure (a : α) (w : σ) : (pure a : StateM σ α).run w = (a, w) := rfl

/-! ## One record -/

/-- The bytes are a record of the fingerprint that is not over. -/
def Usable (config : CacheConfig) (seconds : Nat) (f : Fingerprint) (b : Bytes) : Prop :=
  ∃ r, Record.decode b = .ok r ∧ isOver config.diskTtl seconds r.writtenAt = false ∧
    r.table.fingerprint = f

/-- What comes of looking for a record, and what this does to the records: it is missing; it can be
used; it is of no use and removed; or an operation has failed. -/
inductive Loaded (config : CacheConfig) (seconds : Nat) (f : Fingerprint)
    (before after : Fingerprint → Reading) :
    Except LoadFault (Option ActionTable) × List CacheEvent → Prop
  | missing : before f = .missing → after = before →
      Loaded config seconds f before after (.ok none, [])
  | used {b : Bytes} {r : Record} : before f = .contents b → Record.decode b = .ok r →
      isOver config.diskTtl seconds r.writtenAt = false → r.table.fingerprint = f →
      after = before → Loaded config seconds f before after (.ok (some r.table), [])
  | removed {b : Bytes} {found : Except LoadFault (Option ActionTable)} :
      before f = .contents b → ¬ Usable config seconds f b → (∀ t, found ≠ .ok (some t)) →
      after = Function.update before f .missing → Loaded config seconds f before after (found, [])
  | unreadable (message : String) :
      Loaded config seconds f before after (.error (.unreadable message), [])
  | notRemoved {found : Except LoadFault (Option ActionTable)} (path message : String) :
      (∀ t, found ≠ .ok (some t)) →
      Loaded config seconds f before after (found, [.notRemoved path message])

section

variable (hs : s.Dependable directory good record)

include hs

/-- A record of no use is removed, unless this fails. -/
lemma loaded_of_discard {before : Fingerprint → Reading}
    {found : Except LoadFault (Option ActionTable)} (hw : good w) (hrecord : record w = before)
    (hb : before f = .contents b) (huse : ¬ Usable config seconds f b)
    (hfound : ∀ t, found ≠ .ok (some t)) :
    good ((discard s (recordPathIn directory f)).run w).2 ∧
      Loaded config seconds f before (record ((discard s (recordPathIn directory f)).run w).2)
        (found, ((discard s (recordPathIn directory f)).run w).1) := by
  obtain ⟨hgood, hremoved⟩ := hs.remove f hw
  rw [discard, run_bind]
  cases hresult : ((s.remove (recordPathIn directory f)).run w).1 with
  | ok u => exact ⟨hgood, .removed hb huse hfound (hrecord ▸ hremoved hresult)⟩
  | error message => exact ⟨hgood, .notRemoved _ message hfound⟩

/-- The seconds at which a record that was read is checked. -/
def checkedAt (s : Storage (StateM σ)) (directory : String) (f : Fingerprint) (w : σ) : Nat :=
  (s.now.run ((s.read (recordPathIn directory f)).run w).2).1 / 1000

lemma loaded_load (config : CacheConfig) (f : Fingerprint) (hw : good w) :
    good ((load s config directory f).run w).2 ∧
      Loaded config (checkedAt s directory f w) f (record w)
        (record ((load s config directory f).run w).2) ((load s config directory f).run w).1 := by
  obtain ⟨hgood, hsame, hreading⟩ := hs.read f hw
  rw [load, run_bind]
  cases hread : ((s.read (recordPathIn directory f)).run w).1 with
  | missing =>
    have hmissing : record w f = .missing := by simpa [hread, eq_comm] using hreading
    exact ⟨hgood, .missing hmissing hsame⟩
  | failed message => exact ⟨hgood, .unreadable message⟩
  | contents b =>
    have hb : record w f = .contents b := by simpa [hread, eq_comm] using hreading
    dsimp only
    cases hdecode : Record.decode b with
    | error fault =>
      have huse : ¬ Usable config (checkedAt s directory f w) f b := by
        rintro ⟨r, hr, -⟩
        rw [hdecode] at hr
        cases hr
      exact loaded_of_discard hs hgood hsame hb huse nofun
    | ok r =>
      obtain ⟨hgood, hsame', -⟩ := hs.now hgood
      have hsame := hsame'.trans hsame
      dsimp only
      rw [run_bind, ← checkedAt]
      by_cases hover : isOver config.diskTtl (checkedAt s directory f w) r.writtenAt = true
      · have huse : ¬ Usable config (checkedAt s directory f w) f b := by
          rintro ⟨r', hr', hover', -⟩
          rw [hdecode] at hr'
          cases hr'
          rw [hover] at hover'
          cases hover'
        rw [if_pos hover]
        exact loaded_of_discard hs hgood hsame hb huse nofun
      · rw [if_neg hover]
        by_cases hf : r.table.fingerprint = f
        · rw [if_pos hf]
          exact ⟨hgood, .used hb hdecode (by simpa using hover) hf hsame⟩
        · have huse : ¬ Usable config (checkedAt s directory f w) f b := by
            rintro ⟨r', hr', -, hf'⟩
            rw [hdecode] at hr'
            cases hr'
            exact hf hf'
          rw [if_neg hf]
          exact loaded_of_discard hs hgood hsame hb huse nofun

/-! ## Building and storing -/

/-- A table is stored where nothing was, with the time of the clock, unless this fails. -/
lemma stored (ht : t.fingerprint = f) (hw : good w) :
    (∃ path message, ((store s directory t).run w).1 = [.notStored path message]) ∨
      ((store s directory t).run w).1 = [] ∧ (s.now.run w).1 / 1000 < 2 ^ 64 ∧
        record ((store s directory t).run w).2 = Function.update (record w) f
          (if record w f = .missing then .contents (Record.encode ⟨(s.now.run w).1 / 1000, t⟩)
          else record w f) := by
  obtain ⟨hgood, hsame, htime⟩ := hs.now hw
  obtain ⟨-, hpublished⟩ := hs.publish f
    (Record.encode ⟨(s.now.run w).1 / 1000, t⟩) hgood
  rw [store, run_bind]
  dsimp only
  rw [run_bind, ht]
  cases hresult : ((s.publish directory (recordPathIn directory f)
      (Record.encode ⟨(s.now.run w).1 / 1000, t⟩)).run (s.now.run w).2).1 with
  | ok u => exact .inr ⟨rfl, htime, hsame ▸ hpublished hresult⟩
  | error message => exact .inl ⟨f, message, rfl⟩

omit hs in
lemma build_of_error {e : GrammarError} (h : g.table = .error e) (w : σ) :
    (c.build s g).run w = (⟨.error e, c, []⟩, w) := by
  rw [build, h]
  rfl

/-- The seconds that are put on the record of a table that is built. The clock is read once before,
for the memory. -/
def stampOfBuild (s : Storage (StateM σ)) (w : σ) : Nat := (s.now.run (s.now.run w).2).1 / 1000

/-- A table that was built goes into memory and, unless this fails, to the place of its record. -/
lemma build_of_ok (h : g.table = .ok t) (hdirectory : c.config.directory = some directory)
    (hmemory : c.memory.entries.lookup g.fingerprint = none) (hw : good w) :
    ((c.build s g).run w).1.result = .ok t ∧
      ((∃ e ∈ ((c.build s g).run w).1.events, e.isFailure = true) ∨ stampOfBuild s w < 2 ^ 64 ∧
        record ((c.build s g).run w).2 = Function.update (record w) g.fingerprint
          (if record w g.fingerprint = .missing then
            .contents (Record.encode ⟨stampOfBuild s w, t⟩)
          else record w g.fingerprint)) := by
  have hfingerprint := Grammar.fingerprint_of_table h
  have hinsert : (c.memory.insert (s.now.run w).1 t).1 = t :=
    Memory.insert_of_lookup_none (by rw [hfingerprint, hmemory])
  obtain ⟨hgood, hsame, -⟩ := hs.now hw
  have hstored := stored hs hfingerprint hgood
  rw [hsame] at hstored
  rw [build, h]
  dsimp only
  rw [run_bind, keep, run_bind]
  dsimp only [run_pure]
  rw [hinsert, hdirectory]
  dsimp only
  rw [run_bind]
  refine ⟨rfl, ?_⟩
  rcases hstored with ⟨path, message, hfailed⟩ | ⟨-, hwritten⟩
  · refine .inl ⟨.notStored path message, List.mem_cons_of_mem _ ?_, rfl⟩
    exact hfailed ▸ List.mem_singleton_self _
  · exact .inr hwritten

end

/-- A table from its record goes into memory. -/
lemma loadOrBuild_used {events : List CacheEvent} (hdirectory : c.config.directory = some directory)
    (h : ((load s c.config directory g.fingerprint).run w).1 = (.ok (some t), events))
    (hmemory : c.memory.entries.lookup t.fingerprint = none) :
    ((c.loadOrBuild s g).run w).1.result = .ok t ∧ ((c.loadOrBuild s g).run w).2 =
      (s.now.run ((load s c.config directory g.fingerprint).run w).2).2 := by
  have hinsert : ∀ now, (c.memory.insert now t).1 = t := fun now =>
    Memory.insert_of_lookup_none hmemory
  rw [loadOrBuild, hdirectory]
  dsimp only
  rw [run_bind, h]
  dsimp only
  rw [run_bind, keep, run_bind]
  dsimp only [run_pure]
  rw [hinsert]
  exact ⟨rfl, rfl⟩

/-- Without a table from its record one is built, and what happened before is told. -/
lemma loadOrBuild_built {found : Except LoadFault (Option ActionTable)} {events : List CacheEvent}
    (hdirectory : c.config.directory = some directory)
    (h : ((load s c.config directory g.fingerprint).run w).1 = (found, events))
    (hfound : ∀ t, found ≠ .ok (some t)) :
    ∃ between, (∀ fault, found = .error fault → .ignored g.fingerprint fault ∈ between) ∧
      (c.loadOrBuild s g).run w =
        ({ ((c.build s g).run ((load s c.config directory g.fingerprint).run w).2).1 with
            events := events ++ between ++
              ((c.build s g).run ((load s c.config directory g.fingerprint).run w).2).1.events },
          ((c.build s g).run ((load s c.config directory g.fingerprint).run w).2).2) := by
  rw [loadOrBuild, hdirectory]
  dsimp only
  rw [run_bind, h]
  dsimp only
  cases found with
  | error fault =>
    refine ⟨[.ignored g.fingerprint fault, .building g.fingerprint], ?_, ?_⟩
    · rintro _ ⟨⟩
      exact List.mem_cons_self
    · rw [List.append_assoc]
      rfl
  | ok table =>
    cases table with
    | some t => exact absurd rfl (hfound t)
    | none =>
      refine ⟨[.building g.fingerprint], nofun, ?_⟩
      rw [List.append_assoc]
      rfl

/-! ## Fetching -/

/-- The record of the table is in its place: the old one if it could be used at the time of its
check, and otherwise a new one with the time of its stamp, which can be used for as long as records
live. All other records are as they were. -/
structure Healed (config : CacheConfig) (seconds stamp : Nat) (f : Fingerprint) (t : ActionTable)
    (before after : Fingerprint → Reading) : Prop where
  decodes : ∃ b r, after f = .contents b ∧ Record.decode b = .ok r ∧ r.table = t
  kept : ∀ b, before f = .contents b → Usable config seconds f b → after f = .contents b
  replaced : (∀ b, before f = .contents b → ¬ Usable config seconds f b) →
    after f = .contents (Record.encode ⟨stamp, t⟩) ∧
      ∀ later, later - stamp < config.diskTtl / 1000 →
        Usable config later f (Record.encode ⟨stamp, t⟩)
  others : ∀ f', f' ≠ f → after f' = before f'

/-- A usable record is left alone. -/
lemma healed_of_used {before : Fingerprint → Reading} {r : Record} (hb : before f = .contents b)
    (hr : Record.decode b = .ok r) (huse : Usable config seconds f b) (stamp : Nat) :
    Healed config seconds stamp f r.table before before where
  decodes := ⟨b, r, hb, hr, rfl⟩
  kept _ h _ := h
  replaced h := absurd huse (h b hb)
  others _ _ := rfl

/-- The table of a grammar with room in a record is read back from its record. -/
lemma decode_encode_of_table (hg : g.Recordable) (h : g.table = .ok t) {writtenAt : Nat}
    (hwritten : writtenAt < 2 ^ 64) :
    Record.decode (Record.encode ⟨writtenAt, t⟩) = .ok ⟨writtenAt, t⟩ := by
  have hlength := hg.payload t h
  have hstates := hg.states t h
  obtain ⟨target, -, rfl⟩ := Grammar.table_eq_ok h
  have hstates : (g.automatonOf target).states.length ≤ wordRange := by
    simpa [ActionTable.stateCount, Automaton.table] using hstates
  exact Record.decode_encode_of_fits (Automaton.isWellFormed_table (g.automatonOf target) g)
    (Grammar.fits_automaton_table hg.rules hg.width hstates) hwritten hlength

/-- A record can be used until its lifetime is over. -/
lemma usable_encode {stamp later : Nat} (hg : g.Recordable) (h : g.table = .ok t)
    (hstamp : stamp < 2 ^ 64) (hlater : later - stamp < config.diskTtl / 1000) :
    Usable config later g.fingerprint (Record.encode ⟨stamp, t⟩) :=
  ⟨_, decode_encode_of_table hg h hstamp, decide_eq_false (Nat.not_le.mpr hlater),
    Grammar.fingerprint_of_table h⟩

/-- A new record in a free place holds the table. -/
lemma healed_of_written {before : Fingerprint → Reading} {stamp : Nat}
    (hg : g.Recordable) (h : g.table = .ok t) (hstamp : stamp < 2 ^ 64)
    (huse : ∀ b, before g.fingerprint = .contents b → ¬ Usable config seconds g.fingerprint b) :
    Healed config seconds stamp g.fingerprint t before
      (Function.update before g.fingerprint (.contents (Record.encode ⟨stamp, t⟩))) where
  decodes := ⟨_, _, Function.update_self .., decode_encode_of_table hg h hstamp, rfl⟩
  kept b hb hb' := absurd hb' (huse b hb)
  replaced _ := ⟨Function.update_self .., fun _ hlater => usable_encode hg h hstamp hlater⟩
  others _ hne := Function.update_of_ne hne ..

/-- What building leaves behind where the place of the record is free. -/
structure Rebuilt (config : CacheConfig) (seconds stamp : Nat) (g : Grammar) (memory : Memory)
    (before after : Fingerprint → Reading) (fetched : Fetched) : Prop where
  table : ∀ t, g.table = .ok t → fetched.result = .ok t ∧
    Healed config seconds stamp g.fingerprint t before after
  error : ∀ e, g.table = .error e → fetched.result = .error e ∧
    fetched.cache.memory = memory ∧ after = Function.update before g.fingerprint .missing

/-- On the way to a table from a free place nothing but the record of the table is written. -/
lemma rebuilt_of_free {before : Fingerprint → Reading} (hs : s.Dependable directory good record)
    (hg : g.Recordable) (hdirectory : c.config.directory = some directory)
    (hmemory : c.memory.entries.lookup g.fingerprint = none) (hw : good w)
    (huse : ∀ b, before g.fingerprint = .contents b → ¬ Usable config seconds g.fingerprint b)
    (hfree : record w = Function.update before g.fingerprint .missing)
    (hsucceed : ∀ e ∈ ((c.build s g).run w).1.events, e.isFailure = false) :
    Rebuilt config seconds (stampOfBuild s w) g c.memory before (record ((c.build s g).run w).2)
      ((c.build s g).run w).1 where
  table t ht := by
    obtain ⟨hresult, hfailed | ⟨hstamp, hrecord⟩⟩ := build_of_ok hs ht hdirectory hmemory hw
    · obtain ⟨e, he, hfailure⟩ := hfailed
      rw [hsucceed e he] at hfailure
      cases hfailure
    · rw [hfree, Function.update_self, if_pos rfl, Function.update_idem] at hrecord
      rw [hrecord]
      exact ⟨hresult, healed_of_written hg ht hstamp huse⟩
  error e he := by
    rw [build_of_error he]
    exact ⟨rfl, rfl, hfree⟩

/-- A table that is not in memory is loaded or built. -/
lemma fetch_of_dead (hon : c.enabled = true)
    (hdead : (c.memory.lookup (s.now.run w).1 g.fingerprint).1 = none) :
    (c.fetch s g).run w = (loadOrBuild s
      { c with memory := (c.memory.lookup (s.now.run w).1 g.fingerprint).2 } g).run
        (s.now.run w).2 := by
  rw [fetch, if_pos hon, run_bind]
  rcases hlookup : c.memory.lookup (s.now.run w).1 g.fingerprint with ⟨found, memory⟩
  rw [hlookup] at hdead
  obtain rfl : found = none := hdead
  rfl

/-- The seconds that are put on a record that is stored after looking for an old one. -/
def storedAt (s : Storage (StateM σ)) (config : CacheConfig) (directory : String)
    (f : Fingerprint) (w : σ) : Nat :=
  stampOfBuild s ((load s config directory f).run w).2

/-- A table for which there is no record that can be used is built. -/
lemma rebuilt_of_notFound {found : Except LoadFault (Option ActionTable)} {events : List CacheEvent}
    (hs : s.Dependable directory good record) (hg : g.Recordable)
    (hdirectory : c.config.directory = some directory)
    (hmemory : c.memory.entries.lookup g.fingerprint = none)
    (hgood : good ((load s c.config directory g.fingerprint).run w).2)
    (hload : ((load s c.config directory g.fingerprint).run w).1 = (found, events))
    (hfound : ∀ t, found ≠ .ok (some t))
    (huse : ∀ b, record w g.fingerprint = .contents b →
      ¬ Usable c.config (checkedAt s directory g.fingerprint w) g.fingerprint b)
    (hfree : record ((load s c.config directory g.fingerprint).run w).2 =
      Function.update (record w) g.fingerprint .missing)
    (hsucceed : ∀ e ∈ ((c.loadOrBuild s g).run w).1.events, e.isFailure = false) :
    Rebuilt c.config (checkedAt s directory g.fingerprint w)
      (storedAt s c.config directory g.fingerprint w) g c.memory (record w)
      (record ((c.loadOrBuild s g).run w).2) ((c.loadOrBuild s g).run w).1 := by
  obtain ⟨between, -, hrun⟩ := loadOrBuild_built hdirectory hload hfound
  rw [hrun] at hsucceed ⊢
  have hrebuilt := rebuilt_of_free hs hg hdirectory hmemory hgood huse hfree fun e he =>
    hsucceed e (List.mem_append_right _ he)
  exact ⟨hrebuilt.table, hrebuilt.error⟩

lemma rebuilt_of_loadOrBuild (hs : s.Dependable directory good record) (hg : g.Recordable)
    (hdirectory : c.config.directory = some directory)
    (hmemory : c.memory.entries.lookup g.fingerprint = none) (hw : good w)
    (hgenuine : ∀ b r, record w g.fingerprint = .contents b → Record.decode b = .ok r →
      r.table.fingerprint = g.fingerprint → g.table = .ok r.table)
    (hsucceed : ∀ e ∈ ((c.loadOrBuild s g).run w).1.events, e.isFailure = false) :
    Rebuilt c.config (checkedAt s directory g.fingerprint w)
      (storedAt s c.config directory g.fingerprint w) g c.memory (record w)
      (record ((c.loadOrBuild s g).run w).2) ((c.loadOrBuild s g).run w).1 := by
  obtain ⟨hgood, hloaded⟩ := loaded_load hs c.config g.fingerprint hw
  rcases hload : ((load s c.config directory g.fingerprint).run w).1 with ⟨found, events⟩
  rw [hload] at hloaded
  cases hloaded with
  | missing hmissing hsame =>
    refine rebuilt_of_notFound hs hg hdirectory hmemory hgood hload nofun (fun b hb => ?_) ?_
      hsucceed
    · rw [hmissing] at hb
      cases hb
    · rw [hsame, ← hmissing, Function.update_eq_self]
  | removed hb huse hfound hsame =>
    refine rebuilt_of_notFound hs hg hdirectory hmemory hgood hload hfound (fun b' hb' => ?_)
      hsame hsucceed
    rw [hb] at hb'
    cases hb'
    exact huse
  | used hb hdecode hover hf hsame =>
    have htable := hgenuine _ _ hb hdecode hf
    obtain ⟨hresult, hstate⟩ := loadOrBuild_used hdirectory hload (hf ▸ hmemory)
    have hafter : record ((c.loadOrBuild s g).run w).2 = record w := by
      rw [hstate, (hs.now hgood).2.1, hsame]
    refine ⟨fun t ht => ?_, fun e he => ?_⟩
    · cases htable.symm.trans ht
      rw [hafter]
      exact ⟨hresult, healed_of_used hb hdecode ⟨_, hdecode, hover, hf⟩ _⟩
    · cases htable.symm.trans he
  | unreadable message =>
    obtain ⟨between, hfault, hrun⟩ := loadOrBuild_built hdirectory hload nofun
    rw [hrun] at hsucceed
    have hfailure := hsucceed (.ignored g.fingerprint (.unreadable message))
      (List.mem_append_left _ (List.mem_append_right _ (hfault _ rfl)))
    cases hfailure
  | notRemoved path message hfound =>
    obtain ⟨between, -, hrun⟩ := loadOrBuild_built hdirectory hload hfound
    rw [hrun] at hsucceed
    have hfailure := hsucceed (.notRemoved path message)
      (List.mem_append_left _ (List.mem_append_left _ (List.mem_singleton_self _)))
    cases hfailure

/-- Fetching a table that is not in memory, from a disk whose operations succeed, gives what is
built for the grammar and leaves the record of the table in its place: an old one that can be used
as it was, and a new one instead of anything else, with the time at which it is stored, so that it
can be used as long as records live. Other records stay as they were. If the grammar has no table,
the error is given, nothing is stored, and there is no record any more. -/
theorem fetch_heals (hs : s.Dependable directory good record) (hw : good w)
    (hon : c.enabled = true) (hdirectory : c.config.directory = some directory)
    (hdead : (c.memory.lookup (s.now.run w).1 g.fingerprint).1 = none) (hg : g.Recordable)
    (hgenuine : ∀ b r, record w g.fingerprint = .contents b → Record.decode b = .ok r →
      r.table.fingerprint = g.fingerprint → g.table = .ok r.table)
    (hsucceed : ∀ e ∈ ((c.fetch s g).run w).1.events, e.isFailure = false) :
    (∀ t, g.table = .ok t → ((c.fetch s g).run w).1.result = .ok t ∧
      Healed c.config (checkedAt s directory g.fingerprint (s.now.run w).2)
        (storedAt s c.config directory g.fingerprint (s.now.run w).2) g.fingerprint t
        (record w) (record ((c.fetch s g).run w).2)) ∧
    ∀ e, g.table = .error e → ((c.fetch s g).run w).1.result = .error e ∧
      (∀ entry ∈ ((c.fetch s g).run w).1.cache.memory.entries, entry ∈ c.memory.entries) ∧
      record ((c.fetch s g).run w).2 = Function.update (record w) g.fingerprint .missing := by
  obtain ⟨hgood, hsame, -⟩ := hs.now hw
  obtain ⟨hnone, hsub⟩ := Memory.lookup_none hdead
  rw [fetch_of_dead hon hdead] at hsucceed ⊢
  rw [← hsame] at hgenuine ⊢
  have hrebuilt := rebuilt_of_loadOrBuild
    (c := { c with memory := (c.memory.lookup (s.now.run w).1 g.fingerprint).2 })
    hs hg hdirectory hnone hgood hgenuine hsucceed
  refine ⟨hrebuilt.table, fun e he => ?_⟩
  obtain ⟨hresult, hmemory, hrecord⟩ := hrebuilt.error e he
  refine ⟨hresult, ?_, hrecord⟩
  rw [hmemory]
  exact hsub

/-- The clock of the disk in memory stands still. -/
lemma dependable_at (h : Path.Straight directory) (time : Nat) :
    MemoryDisk.storage.Dependable directory (fun disk => disk.Sound ∧ disk.time = time)
      (MemoryDisk.record directory) where
  now hw := ⟨hw, rfl, hw.1.2⟩
  read {w} f hw := by
    obtain ⟨hgood, hread⟩ := (MemoryDisk.dependable_storage h).read f hw.1
    have htime : ((MemoryDisk.storage.read (recordPathIn directory f)).run w).2.time = w.time := by
      rw [MemoryDisk.run_read]
    exact ⟨⟨hgood, htime.trans hw.2⟩, hread⟩
  remove {w} f hw := by
    obtain ⟨hgood, hremove⟩ := (MemoryDisk.dependable_storage h).remove f hw.1
    have htime : ((MemoryDisk.storage.remove (recordPathIn directory f)).run w).2.time =
        w.time := by
      rw [MemoryDisk.run_remove]
    exact ⟨⟨hgood, htime.trans hw.2⟩, hremove⟩
  publish {w} f b hw := by
    obtain ⟨hgood, hpublish⟩ := (MemoryDisk.dependable_storage h).publish f b hw.1
    have htime : ((MemoryDisk.storage.publish directory (recordPathIn directory f) b).run
        w).2.time = w.time := by
      rw [MemoryDisk.run_publish]
    exact ⟨⟨hgood, htime.trans hw.2⟩, hpublish⟩

lemma checkedAt_storage (h : Path.Straight directory) {w : MemoryDisk} (hw : w.Sound) :
    checkedAt MemoryDisk.storage directory f w = w.time / 1000 :=
  congrArg (· / 1000) ((dependable_at h w.time).read f ⟨hw, rfl⟩).1.2

lemma storedAt_storage (h : Path.Straight directory) {w : MemoryDisk} (hw : w.Sound) :
    storedAt MemoryDisk.storage config directory f w = w.time / 1000 :=
  congrArg (· / 1000) (loaded_load (dependable_at h w.time) config f ⟨hw, rfl⟩).1.2

/-- A disk with one record, that of the brackets around a word. -/
def withRecord (b : Bytes) : MemoryDisk :=
  ⟨7200000, (FileTree.empty.put ["records".toList] .directory).put
    (Grammar.nested.fingerprint.recordPlace "/records") (.file b)⟩

lemma sound_withRecord (b : Bytes) : (withRecord b).Sound := by
  have hempty : FileTree.empty.Tidy := fun p _ hp hnode => by
    rw [FileTree.node?, if_neg hp] at hnode
    cases hnode
  have hdirectory : (FileTree.empty.put ["records".toList] .directory).Tidy :=
    hempty.put (by decide) rfl rfl _
  have htime : 7200000 / 1000 < 2 ^ 64 := by decide
  refine ⟨hdirectory.put (MemoryDisk.recordPlace_ne_nil _ _) ?_ ?_ _, htime⟩
  · rw [Fingerprint.recordPlace, List.dropLast_concat]
    decide
  · rw [FileTree.node?_put (MemoryDisk.recordPlace_ne_nil _ _), if_neg]
    · exact if_neg (MemoryDisk.recordPlace_ne_nil _ _)
    · intro h
      have hlength := congrArg List.length h
      rw [Fingerprint.recordPlace, List.length_append] at hlength
      exact absurd hlength (by decide)

lemma record_withRecord (b : Bytes) :
    MemoryDisk.record "/records" (withRecord b) Grammar.nested.fingerprint = .contents b := by
  rw [MemoryDisk.record, withRecord, FileTree.node?_put (MemoryDisk.recordPlace_ne_nil _ _),
    if_pos rfl]
  rfl

lemma recordable_nested : Grammar.nested.Recordable where
  rules := by decide
  width := by decide
  states t ht := by
    cases ht
    decide +kernel
  payload t ht := by
    cases ht
    decide +kernel

/-- The table of the brackets, as it was written two hours ago. -/
def outlived : Bytes :=
  Record.encode ⟨0, (Grammar.nested.automatonOf 2).table Grammar.nested⟩

/-- A record of the table itself that is over gives way to one with the time of now, which can be
used for the hour that records live. -/
theorem fetch_heals_outlived :
    MemoryDisk.storage.Dependable "/records" MemoryDisk.Sound (MemoryDisk.record "/records") ∧
    (withRecord outlived).Sound ∧
    (onDisk.memory.lookup 7200000 Grammar.nested.fingerprint).1 = none ∧
    Grammar.nested.Recordable ∧
    (∀ b r, MemoryDisk.record "/records" (withRecord outlived) Grammar.nested.fingerprint =
      .contents b → Record.decode b = .ok r → r.table.fingerprint = Grammar.nested.fingerprint →
      Grammar.nested.table = .ok r.table) ∧
    (∀ e ∈ ((onDisk.fetch MemoryDisk.storage Grammar.nested).run (withRecord outlived)).1.events,
      e.isFailure = false) ∧
    ∃ t, Grammar.nested.table = .ok t ∧
      ((onDisk.fetch MemoryDisk.storage Grammar.nested).run (withRecord outlived)).1.result =
        .ok t ∧
      MemoryDisk.record "/records"
        ((onDisk.fetch MemoryDisk.storage Grammar.nested).run (withRecord outlived)).2
        Grammar.nested.fingerprint = .contents (Record.encode ⟨7200, t⟩) ∧
      ∀ later, later - 7200 < 3600 →
        Usable onDisk.config later Grammar.nested.fingerprint (Record.encode ⟨7200, t⟩) := by
  have hstraight : Path.Straight "/records" := ⟨by decide, by decide⟩
  have hdependable := MemoryDisk.dependable_storage hstraight
  have hdecode : Record.decode outlived =
      .ok ⟨0, (Grammar.nested.automatonOf 2).table Grammar.nested⟩ :=
    decode_encode_of_table recordable_nested rfl (by decide)
  have hgenuine : ∀ b r, MemoryDisk.record "/records" (withRecord outlived)
      Grammar.nested.fingerprint = .contents b → Record.decode b = .ok r →
      r.table.fingerprint = Grammar.nested.fingerprint → Grammar.nested.table = .ok r.table := by
    intro b r hb hr _
    rw [record_withRecord] at hb
    cases hb
    cases hdecode.symm.trans hr
    rfl
  have hsucceed : ∀ e ∈ ((onDisk.fetch MemoryDisk.storage Grammar.nested).run
      (withRecord outlived)).1.events, e.isFailure = false := by decide +kernel
  have hchecked : checkedAt MemoryDisk.storage "/records" Grammar.nested.fingerprint
      (MemoryDisk.storage.now.run (withRecord outlived)).2 = 7200 :=
    checkedAt_storage hstraight (sound_withRecord outlived)
  have hstored : storedAt MemoryDisk.storage onDisk.config "/records" Grammar.nested.fingerprint
      (MemoryDisk.storage.now.run (withRecord outlived)).2 = 7200 :=
    storedAt_storage hstraight (sound_withRecord outlived)
  obtain ⟨hresult, hhealed⟩ := (fetch_heals hdependable (sound_withRecord outlived) rfl rfl rfl
    recordable_nested hgenuine hsucceed).1 _ rfl
  rw [hchecked, hstored] at hhealed
  have hover : ∀ b, MemoryDisk.record "/records" (withRecord outlived)
      Grammar.nested.fingerprint = .contents b →
      ¬ Usable onDisk.config 7200 Grammar.nested.fingerprint b := by
    rintro b hb ⟨r, hr, halive, -⟩
    rw [record_withRecord] at hb
    cases hb
    cases hdecode.symm.trans hr
    exact absurd halive (by decide)
  obtain ⟨hwritten, husable⟩ := hhealed.replaced hover
  exact ⟨hdependable, sound_withRecord outlived, rfl, recordable_nested, hgenuine, hsucceed, _,
    rfl, hresult, hwritten, husable⟩

end Cache

end ShiftReduce
