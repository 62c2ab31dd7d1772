import Cognitive.Proofs.Settings.Layers
/-!
# Loading settings breaks off, refuses or gives settings

Where loading gives no settings it mostly refuses: a file that is missing or malformed, a variable that cannot be read,
an unknown key, a value of the wrong kind or out of range.  What breaks it off is listed in full
(`Sources.BreaksOff`): a file that cannot be looked for, is not UTF-8 or has a numeral that is too long, an extension
that is no text, and a refusal whose value is too long to be written.
-/
namespace Cognitive

/-- The ways in which reading a settings file breaks off. -/
inductive SettingsFile.BreaksOff (path : String) : SettingsFile → Breakdown → Prop where
  | beyondReach : BreaksOff path .beyondReach (.path .tooLong path)
  | notUtf8 {bytes : ByteArray} (h : Toml.readBytes bytes = .error .notUtf8) : BreaksOff path (.bytes bytes) .badEncoding
  | tooLong {bytes : ByteArray} {digits : Nat} (h : Toml.readBytes bytes = .error (.tooLong digits)) :
    BreaksOff path (.bytes bytes) (.numeral (.tooLong digits))

theorem SettingsFile.BreaksOff.unique {path : String} {file : SettingsFile} {b b' : Breakdown}
    (h : file.BreaksOff path b) (h' : file.BreaksOff path b') : b = b' := by
  cases h with
  | beyondReach =>
    cases h'
    rfl
  | notUtf8 h =>
    cases h' with
    | notUtf8 => rfl
    | tooLong h' => cases h.symm.trans h'
  | tooLong h =>
    cases h' with
    | notUtf8 h' => cases h.symm.trans h'
    | tooLong h' =>
      cases h.symm.trans h'
      rfl

theorem SettingsFile.BreaksOff.not_holds {path : String} {file : SettingsFile} {b : Breakdown} {t : Table}
    (h : file.BreaksOff path b) : ¬ Sources.Holds (some (path, file)) t := by
  intro ht
  cases ht with
  | content ht =>
    cases h with
    | notUtf8 h => cases h.symm.trans ht
    | tooLong h => cases h.symm.trans ht

namespace Sources

variable {s : Sources} {b : Breakdown}

/-- **The ways in which loading the settings breaks off**: a file does that is reached, the first unknown key has a
value that is too long to be written, or the check does at the first setting that does not accept its value. -/
inductive BreaksOff (s : Sources) : Breakdown → Prop where
  | file {before after : List FileRole} {r : FileRole} {path : String} {file : SettingsFile} {b : Breakdown}
      (hr : FileRole.all = before ++ r :: after) (hb : ∀ r' ∈ before, ∃ t, Holds (s.fileIn r') t)
      (hf : s.fileIn r = some (path, file)) (h : file.BreaksOff path b) : BreaksOff s b
  | unknown {t : Table} {name : String} {v : Value} (ht : s.merged = .ok t)
      (hu : Settings.unknownKey? t = some (name, v)) (hl : v.isTooLong = true) : BreaksOff s (.numeral .tooLongToWrite)
  | setting {t : Table} {k : Setting} {b : Breakdown} (ht : s.merged = .ok t) (hu : Settings.unknownKey? t = none)
      (hk : (Settings.ofTable t).IsFirstFlaw k) (h : k.BreaksOff (Settings.ofTable t k) b) : BreaksOff s b

/-- A refusal of the settings: one of the program's own errors, or one that names a setting. -/
def IsSettingsRefusal (r : Refusal) : Prop := r.cls = .general ∨ r.cls = .invalidSetting

/-! ## Files -/

/-- **The ways in which a file that may be there is read.** -/
inductive FileReading (file : Option (String × SettingsFile)) : Outcome Table → Prop where
  | held {t : Table} (h : Holds file t) : FileReading file (.ok (sectionOf t))
  | breaksOff {path : String} {f : SettingsFile} {b : Breakdown} (hf : file = some (path, f)) (h : f.BreaksOff path b) :
    FileReading file (breakDown b)
  | refused {r : Refusal} (hc : r.cls = .general)
      (h : ∀ path f b, file = some (path, f) → ¬ SettingsFile.BreaksOff path f b) : FileReading file (refuse r)

namespace FileReading

variable {file : Option (String × SettingsFile)} {o : Outcome Table}

theorem broke_iff (h : FileReading file o) :
    o = .error (.broke b) ↔ ∃ path f, file = some (path, f) ∧ SettingsFile.BreaksOff path f b := by
  cases h with
  | held h =>
    refine iff_of_false (fun h => nomatch h) ?_
    rintro ⟨path, f, rfl, hb⟩
    exact hb.not_holds h
  | @breaksOff path f b' hf h =>
    constructor
    · intro heq
      cases heq
      exact ⟨path, f, hf, h⟩
    · rintro ⟨path', f', hf', h'⟩
      cases hf.symm.trans hf'
      rw [h.unique h']
      rfl
  | refused _ h =>
    refine iff_of_false (fun h => nomatch h) ?_
    rintro ⟨path, f, hf, hb⟩
    exact h path f b hf hb

theorem exists_holds {l : Table} (h : FileReading file o) (ho : o = .ok l) : ∃ t, Holds file t := by
  cases h with
  | held h => exact ⟨_, h⟩
  | breaksOff | refused => cases ho

theorem isSettingsRefusal {r : Refusal} (h : FileReading file o) (ho : o = .error (.refused r)) :
    IsSettingsRefusal r := by
  cases h with
  | held | breaksOff => cases ho
  | refused hc =>
    cases ho
    exact .inl hc

end FileReading

theorem reading_layerOf (role path : String) (file : SettingsFile) :
    FileReading (some (path, file)) (layerOf role path file) := by
  cases file with
  | unreadable =>
    refine .refused rfl fun path f b hf hb => ?_
    cases hf
    cases hb
  | beyondReach => exact .breaksOff rfl .beyondReach
  | bytes content =>
    rw [layerOf]
    cases h : Toml.readBytes content with
    | ok t => exact .held (.content h)
    | error fault =>
      cases fault with
      | notUtf8 => exact .breaksOff rfl (.notUtf8 h)
      | tooLong digits => exact .breaksOff rfl (.tooLong h)
      | malformed =>
        refine .refused rfl fun path f b hf hb => ?_
        cases hf
        cases hb with
        | notUtf8 h' => cases h.symm.trans h'
        | tooLong h' => cases h.symm.trans h'

theorem reading_optionalLayer (role : String) (file : Option (String × SettingsFile)) :
    FileReading file (optionalLayer role file) := by
  cases file with
  | none => exact .held .absent
  | some file => exact reading_layerOf role file.1 file.2

/-- **How the file in a role is read.** -/
theorem reading_fileLayer (s : Sources) (r : FileRole) : FileReading (s.fileIn r) (s.fileLayer r) := by
  cases r with
  | globalFile | projectFile => exact reading_optionalLayer _ _
  | namedFile =>
    rw [fileLayer, fileIn]
    rcases s.namedFile with _ | ⟨path, _ | file⟩
    · exact .held .absent
    · exact .refused rfl fun _ _ _ hf => nomatch hf
    · exact reading_layerOf _ _ _

/-- A file that holds a table is read, unless it is the one that is named. -/
theorem exists_fileLayer {r : FileRole} {t : Table} (hr : r ≠ .namedFile) (h : Holds (s.fileIn r) t) :
    ∃ l, s.fileLayer r = .ok l := by
  cases r with
  | globalFile | projectFile => exact ⟨_, optionalLayer_eq_ok h⟩
  | namedFile => exact absurd rfl hr

/-! ## The merged table -/

/-- A variable that cannot be read is refused: its text can always be written. -/
theorem exists_of_table_eq_error {env : Environment} {e : Failure} (h : env.table = .error e) :
    ∃ r, e = .refused r ∧ IsSettingsRefusal r := by
  obtain h | ⟨_, -, h⟩ := Outcome.bind_eq_error_iff.1 h
  · obtain ⟨-, k, -, -, -, hk⟩ := Outcome.mapM_eq_error_iff.1 h
    unfold Environment.setting at hk
    split at hk
    · cases hk
    · split at hk
      · cases hk
      · cases hk
        exact ⟨_, rfl, .inr rfl⟩
  · cases h

theorem merged_eq_error_iff {e : Failure} : s.merged = .error e ↔ FileRole.all.mapM s.fileLayer = .error e ∨
    (∃ files, FileRole.all.mapM s.fileLayer = .ok files) ∧ s.environment.table = .error e := by
  have hmap : s.merged = s.layers.map fun layers => layers.foldl Table.merge [] := by
    rw [merged]
    cases s.layers <;> rfl
  rw [hmap, Outcome.map_eq_error_iff, layers_eq, Outcome.bind_eq_error_iff]
  refine or_congr_right ?_
  constructor
  · rintro ⟨files, hfiles, h⟩
    exact ⟨⟨files, hfiles⟩, Outcome.map_eq_error_iff.1 h⟩
  · rintro ⟨⟨files, hfiles⟩, h⟩
    exact ⟨files, hfiles, Outcome.map_eq_error_iff.2 h⟩

theorem namedFile_not_mem_before {before after : List FileRole} {r : FileRole}
    (h : FileRole.all = before ++ r :: after) : .namedFile ∉ before := by
  intro hm
  have hdrop : before ++ (r :: after).dropLast = [.globalFile, .projectFile] := by
    rw [← List.dropLast_append_of_ne_nil (List.cons_ne_nil r after), ← h]
    rfl
  have hmem : FileRole.namedFile ∈ [FileRole.globalFile, .projectFile] := hdrop ▸ List.mem_append_left _ hm
  exact absurd hmem (by decide)

theorem merged_broke_iff : s.merged = .error (.broke b) ↔ ∃ before r after, FileRole.all = before ++ r :: after ∧
    (∀ r' ∈ before, ∃ t, Holds (s.fileIn r') t) ∧ s.fileLayer r = .error (.broke b) := by
  have hfiles : s.merged = .error (.broke b) ↔ FileRole.all.mapM s.fileLayer = .error (.broke b) := by
    rw [merged_eq_error_iff]
    refine or_iff_left fun h => ?_
    obtain ⟨r, hr, -⟩ := exists_of_table_eq_error h.2
    cases hr
  rw [hfiles, Outcome.mapM_eq_error_iff]
  constructor
  · rintro ⟨before, r, after, h, hb, hr⟩
    refine ⟨before, r, after, h, fun r' hr' => ?_, hr⟩
    obtain ⟨l, hl⟩ := hb r' hr'
    exact (reading_fileLayer s r').exists_holds hl
  · rintro ⟨before, r, after, h, hb, hr⟩
    refine ⟨before, r, after, h, fun r' hr' => ?_, hr⟩
    obtain ⟨t, ht⟩ := hb r' hr'
    exact exists_fileLayer (fun heq => namedFile_not_mem_before h (heq ▸ hr')) ht

theorem isSettingsRefusal_of_merged {r : Refusal} (h : s.merged = .error (.refused r)) : IsSettingsRefusal r := by
  rcases merged_eq_error_iff.1 h with h | ⟨-, h⟩
  · obtain ⟨-, r, -, -, -, hr⟩ := Outcome.mapM_eq_error_iff.1 h
    exact (reading_fileLayer s r).isSettingsRefusal hr
  · obtain ⟨r, hr, hrefusal⟩ := exists_of_table_eq_error h
    cases hr
    exact hrefusal

/-! ## Keys and values -/

theorem refuseWrongKinds_broke_iff {α : Type} {o : Outcome α} :
    refuseWrongKinds o = .error (.broke b) ↔ o = .error (.broke b) ∧ b.isWrongKind = false := by
  unfold refuseWrongKinds
  split
  · next b' =>
    split
    · next hb =>
      refine iff_of_false (fun h => nomatch h) ?_
      rintro ⟨heq, hb'⟩
      cases heq
      exact absurd (hb.symm.trans hb') (by decide)
    · next hb =>
      constructor
      · intro heq
        cases heq
        exact ⟨rfl, by simpa using hb⟩
      · rintro ⟨heq, -⟩
        cases heq
        rfl
  · next hno =>
    refine iff_of_false (fun h => hno b h) fun h => hno b h.1

theorem settle_broke_iff {t : Table} : settle t = .error (.broke b) ↔
    (∃ name v, Settings.unknownKey? t = some (name, v) ∧ v.isTooLong = true ∧ b = .numeral .tooLongToWrite) ∨
    Settings.unknownKey? t = none ∧
      ∃ k, (Settings.ofTable t).IsFirstFlaw k ∧ k.BreaksOff (Settings.ofTable t k) b := by
  unfold settle
  split
  · next name v hu =>
    unfold refuseSetting
    cases hl : v.isTooLong with
    | true =>
      constructor
      · intro heq
        cases heq
        exact .inl ⟨name, v, hu, hl, rfl⟩
      · rintro (⟨_, _, -, -, rfl⟩ | ⟨hnone, -⟩)
        · rfl
        · cases hu.symm.trans hnone
    | false =>
      refine iff_of_false (fun h => nomatch h) ?_
      rintro (⟨_, _, heq, hl', -⟩ | ⟨hnone, -⟩)
      · cases hu.symm.trans heq
        exact absurd (hl.symm.trans hl') (by decide)
      · cases hu.symm.trans hnone
  · next hu =>
    rw [refuseWrongKinds_broke_iff, ofFields_eq hu, Outcome.map_eq_error_iff, Settings.check_broke_iff]
    simp [hu]

theorem isSettingsRefusal_of_settle {t : Table} {r : Refusal} (h : settle t = .error (.refused r)) :
    IsSettingsRefusal r := by
  unfold settle at h
  split at h
  · unfold refuseSetting at h
    split at h
    · cases h
    · cases h
      exact .inr rfl
  · next hu =>
    rw [ofFields_eq hu] at h
    cases hc : (Settings.ofTable t).check with
    | ok =>
      rw [hc] at h
      cases h
    | error e =>
      rw [hc] at h
      cases e with
      | broke b =>
        simp only [Except.map, refuseWrongKinds] at h
        split at h
        · cases h
          exact .inl rfl
        · cases h
      | refused r' =>
        cases h
        obtain ⟨k, blamed, reason, -, rfl⟩ := Settings.exists_of_check_refused hc
        exact .inr rfl

theorem settings_broke_iff : s.settings = .error (.broke b) ↔ s.BreaksOff b := by
  rw [settings_eq, Outcome.bind_eq_error_iff, merged_broke_iff]
  constructor
  · rintro (⟨before, r, after, h, hb, hr⟩ | ⟨t, ht, h⟩)
    · obtain ⟨path, file, hf, hbreak⟩ := (reading_fileLayer s r).broke_iff.1 hr
      exact .file h hb hf hbreak
    · rcases settle_broke_iff.1 h with ⟨name, v, hu, hl, rfl⟩ | ⟨hu, k, hk, hbreak⟩
      · exact .unknown ht hu hl
      · exact .setting ht hu hk hbreak
  · intro h
    cases h with
    | file h hb hf hbreak =>
      exact .inl ⟨_, _, _, h, hb, (reading_fileLayer s _).broke_iff.2 ⟨_, _, hf, hbreak⟩⟩
    | unknown ht hu hl => exact .inr ⟨_, ht, settle_broke_iff.2 (.inl ⟨_, _, hu, hl, rfl⟩)⟩
    | setting ht hu hk hbreak => exact .inr ⟨_, ht, settle_broke_iff.2 (.inr ⟨hu, _, hk, hbreak⟩)⟩

/-- Every setting that is loaded accepts its value. -/
theorem accepts_of_settings {c : Settings} (h : s.settings = .ok c) (k : Setting) : k.Accepts (c k) := by
  obtain ⟨t, -, hc⟩ := Outcome.bind_eq_ok_iff.1 (settings_eq s ▸ h)
  exact Settings.check_eq_ok_iff.1 (settle_eq_ok hc).2 k

/-- A project's file of one byte that no text starts with. -/
def garbled : Sources where
  globalFile := none
  projectFile := some ("cogmetrics.toml", .bytes ⟨#[0xFF]⟩)
  namedFile := none
  environment := []
  overrides := []

end Sources
end Cognitive
