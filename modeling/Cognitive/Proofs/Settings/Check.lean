import Cognitive.Proofs.Outcome
import Cognitive.Settings.Basic
/-!
# What the check of the settings comes to

The settings are checked one after the other, and each check is about its own setting only: `Setting.Accepts` says which
values a setting may have.  The check of a single setting has four ways to end, and a value tells which
(`Settings.ending`): it is accepted, it is of a kind that the check cannot be made on, it breaks the check off, or it
is rejected for one of a few reasons.  The first setting that does not accept its value decides about the whole
(`Settings.check_eq_error_iff`).
-/
namespace Cognitive

namespace Setting

/-- The settings that are checked, in the order of the checks. -/
def checked : List Setting := [sourceExtensions, maxArchiveMb, maxFiles, workers, port, verbosity]

/-- A text that starts with a dot. -/
def isExtension : Value → Bool
  | .str e => e.startsWith "."
  | _ => false

/-- The values that a setting may have. -/
def Accepts : Setting → Value → Prop
  | sourceExtensions, v => ∃ items, v.items = .ok items ∧ ∀ i ∈ items, isExtension i = true
  | maxArchiveMb, v => ∃ q, v.quantity? = some q ∧ q.leInt 0 = false
  | maxFiles, v => ∃ q, v.quantity? = some q ∧ q.ltInt 1 = false
  | workers, v => v = .null ∨ ∃ q, v.quantity? = some q ∧ q.ltInt 1 = false
  | port, v => ∃ q, v.quantity? = some q ∧ Value.Quantity.intLt 0 q = true ∧ q.ltInt 65536 = true
  | verbosity, v => ∃ word ∈ Settings.verbosities, v = .str word
  | _, _ => True

/-- The kinds of values that a setting can be checked on. -/
def Fits : Setting → Value → Prop
  | sourceExtensions, v => ∃ items, v.items = .ok items
  | maxArchiveMb, v | maxFiles, v | port, v => ∃ q, v.quantity? = some q
  | workers, v => v = .null ∨ ∃ q, v.quantity? = some q
  | _, _ => True

/-- What is said of a value that is rejected. -/
def reasons : List String :=
  ["must start with '.'", "must be positive", "must be at least 1", "must be between 1 and 65535",
   "must be quiet, normal or verbose"]

/-- **Values that break the check of a setting off**: extensions of which the first that is not accepted is no text, and
a value that would be rejected but cannot be written. -/
inductive BreaksOff : Setting → Value → Breakdown → Prop where
  | noText {v i : Value} {items : List Value} (h : v.items = .ok items)
      (hi : items.find? (fun i => !isExtension i) = some i) (ht : i.str? = none) :
      BreaksOff sourceExtensions v (.noText i.kindName)
  | unwritable {k : Setting} {v : Value} (hk : k ≠ sourceExtensions) (hf : k.Fits v) (ha : ¬ k.Accepts v)
      (hl : v.isTooLong = true) : BreaksOff k v (.numeral .tooLongToWrite)

/-- **The ways in which the check of a setting ends.** -/
inductive Ending (k : Setting) (v : Value) : Outcome Unit → Prop where
  | accepted (h : k.Accepts v) : Ending k v (.ok ())
  | misfit {b : Breakdown} (hf : ¬ k.Fits v) (hb : b.isWrongKind = true) : Ending k v (breakDown b)
  | breaksOff {b : Breakdown} (h : k.BreaksOff v b) : Ending k v (breakDown b)
  | rejected {blamed : Value} {reason : String} (h : ¬ k.Accepts v) (hb : ∀ b, ¬ k.BreaksOff v b)
      (hr : reason ∈ reasons) : Ending k v (refuse (.invalidSetting k.key blamed reason))

variable {k : Setting} {v : Value} {b : Breakdown}

theorem Accepts.fits (h : k.Accepts v) : k.Fits v := by
  cases k with
  | sourceExtensions | maxArchiveMb | maxFiles | port =>
    obtain ⟨x, hx, -⟩ := h
    exact ⟨x, hx⟩
  | workers => exact h.imp_right fun ⟨q, hq, _⟩ => ⟨q, hq⟩
  | ignoredDirs | ignoredDirPrefixes | host | corsOrigins | verbosity | logFile => trivial

theorem accepts_sourceExtensions_iff {items : List Value} (h : v.items = .ok items) :
    sourceExtensions.Accepts v ↔ items.find? (fun i => !isExtension i) = none := by
  rw [Accepts, List.find?_eq_none]
  simp [h]

namespace BreaksOff

theorem not_accepts (h : k.BreaksOff v b) : ¬ k.Accepts v := by
  cases h with
  | noText h hi ht =>
    rw [accepts_sourceExtensions_iff h, hi]
    exact fun hn => nomatch hn
  | unwritable _ _ ha _ => exact ha

theorem fits (h : k.BreaksOff v b) : k.Fits v := by
  cases h with
  | noText h _ _ => exact ⟨_, h⟩
  | unwritable _ hf _ _ => exact hf

theorem not_isWrongKind (h : k.BreaksOff v b) : b.isWrongKind = false := by
  cases h <;> rfl

theorem unique {b' : Breakdown} (h : k.BreaksOff v b) (h' : k.BreaksOff v b') : b = b' := by
  cases h with
  | noText h hi _ =>
    cases h' with
    | noText h' hi' _ =>
      cases h.symm.trans h'
      cases hi.symm.trans hi'
      rfl
    | unwritable hk => exact absurd rfl hk
  | unwritable hk =>
    cases h' with
    | noText => exact absurd rfl hk
    | unwritable => rfl

end BreaksOff

/-- A value that is itself blamed breaks the check off exactly when it cannot be written. -/
theorem ending_refuseSetting {reason : String} (hk : k ≠ sourceExtensions) (hf : k.Fits v) (ha : ¬ k.Accepts v)
    (hr : reason ∈ reasons) : Ending k v (refuseSetting k.key v reason) := by
  unfold refuseSetting
  split
  · next hl => exact .breaksOff (.unwritable hk hf ha hl)
  · next hl =>
    refine .rejected ha (fun b hb => ?_) hr
    cases hb with
    | noText => exact hk rfl
    | unwritable _ _ _ hl' => exact hl hl'

theorem Ending.eq_ok_iff {o : Outcome Unit} (h : Ending k v o) : o = .ok () ↔ k.Accepts v := by
  cases h with
  | accepted h => exact iff_of_true rfl h
  | misfit hf => exact iff_of_false (fun h => nomatch h) fun h => hf h.fits
  | breaksOff h => exact iff_of_false (fun h => nomatch h) h.not_accepts
  | rejected h => exact iff_of_false (fun h => nomatch h) h

theorem Ending.broke_iff {o : Outcome Unit} (h : Ending k v o) :
    o = .error (.broke b) ∧ b.isWrongKind = false ↔ k.BreaksOff v b := by
  cases h with
  | accepted h => exact iff_of_false (fun h => nomatch h.1) fun hb => hb.not_accepts h
  | misfit hf hw =>
    refine iff_of_false ?_ fun hb => hf hb.fits
    rintro ⟨heq, hb⟩
    cases heq
    exact absurd (hw.symm.trans hb) (by decide)
  | breaksOff h =>
    constructor
    · rintro ⟨heq, -⟩
      cases heq
      exact h
    · intro hb
      obtain rfl := h.unique hb
      exact ⟨rfl, hb.not_isWrongKind⟩
  | rejected _ hb => exact iff_of_false (fun h => nomatch h.1) (hb b)

theorem Ending.exists_of_refused {o : Outcome Unit} {r : Refusal} (h : Ending k v o) (ho : o = .error (.refused r)) :
    ∃ blamed, ∃ reason ∈ reasons, r = .invalidSetting k.key blamed reason := by
  cases h with
  | accepted | misfit | breaksOff => cases ho
  | rejected _ _ hr =>
    cases ho
    exact ⟨_, _, hr, rfl⟩

end Setting

namespace Settings

open Setting (Accepts Fits Ending isExtension)

variable {s : Settings} {k : Setting} {v : Value}

/-! ## The check of one setting -/

/-- The check of a single setting; some settings are not checked. -/
def checkSetting (s : Settings) : Setting → Outcome Unit
  | .sourceExtensions => (s .sourceExtensions).items >>= checkExtensions
  | .maxArchiveMb => s.checkArchiveLimit
  | .maxFiles => s.checkAtLeastOne .maxFiles
  | .workers =>
    match s .workers with
    | .null => .ok ()
    | _ => s.checkAtLeastOne .workers
  | .port => s.checkPort
  | .verbosity => s.checkVerbosity
  | _ => .ok ()

/-- The first item that is no extension decides. -/
theorem checkExtensions_eq : ∀ items : List Value, checkExtensions items =
    match items.find? fun i => !isExtension i with
    | none => .ok ()
    | some (.str e) => refuse (.invalidSetting Setting.sourceExtensions.key (.str e) "must start with '.'")
    | some i => breakDown (.noText i.kindName)
  | [] => rfl
  | .str e :: rest => by
    rw [checkExtensions, List.find?_cons, checkExtensions_eq rest]
    cases he : e.startsWith "." with
    | true => simp [isExtension, he]
    | false =>
      simp only [isExtension, he]
      rfl
  | .null :: _ | .bool _ :: _ | .int _ :: _ | .float _ :: _ | .moment _ :: _ | .list _ :: _ | .table _ :: _ => rfl

theorem exists_items_or_wrongKind (v : Value) :
    (∃ items, v.items = .ok items) ∨ ∃ b, v.items = breakDown b ∧ b.isWrongKind = true := by
  cases v with
  | str | list | table => exact .inl ⟨_, rfl⟩
  | null | bool | int | float | moment => exact .inr ⟨_, rfl, rfl⟩

theorem ending_sourceExtensions (v : Value) : Ending .sourceExtensions v (v.items >>= checkExtensions) := by
  rcases exists_items_or_wrongKind v with ⟨items, h⟩ | ⟨b, h, hb⟩
  · have hbind : (v.items >>= checkExtensions) = checkExtensions items := by rw [h]; rfl
    rw [hbind, checkExtensions_eq]
    split
    · next hnone => exact .accepted ((Setting.accepts_sourceExtensions_iff h).2 hnone)
    · next e he =>
      refine .rejected ?_ (fun b hb => ?_) (by simp [Setting.reasons])
      · rw [Setting.accepts_sourceExtensions_iff h, he]
        exact fun hn => nomatch hn
      · cases hb with
        | noText h' hi ht =>
          cases h.symm.trans h'
          cases he.symm.trans hi
          cases ht
        | unwritable hk => exact hk rfl
    · next i hno hi =>
      refine .breaksOff (.noText h hi ?_)
      cases i with
      | str e => exact absurd rfl (hno e)
      | null | bool | int | float | moment | list | table => rfl
  · have hf : ¬ Fits .sourceExtensions v := by
      rintro ⟨items, hi⟩
      cases h.symm.trans hi
    have hbind : (v.items >>= checkExtensions) = breakDown b := by rw [h]; rfl
    rw [hbind]
    exact .misfit hf hb

/-- What a value is compared as: a number, or else nothing of the kind. -/
inductive IsRead (v : Value) : Outcome Value.Quantity → Prop where
  | number {q : Value.Quantity} (h : v.quantity? = some q) : IsRead v (.ok q)
  | other {b : Breakdown} (h : v.quantity? = none) (hb : b.isWrongKind = true) : IsRead v (breakDown b)

theorem isRead_leftOf (operator : String) (v : Value) : IsRead v (v.leftOf operator) := by
  unfold Value.leftOf
  split
  · next q hq => exact .number hq
  · next hq => exact .other hq rfl

theorem isRead_rightOf (operator : String) (v : Value) : IsRead v (v.rightOf operator) := by
  unfold Value.rightOf
  split
  · next q hq => exact .number hq
  · next hq => exact .other hq rfl

/-- The check of a number whose test decides whether it is accepted. -/
theorem ending_number {read : Outcome Value.Quantity} {test : Value.Quantity → Outcome Unit} {reason : String}
    (hk : k ≠ .sourceExtensions) (hr : reason ∈ Setting.reasons) (hfits : k.Fits v ↔ ∃ q, v.quantity? = some q)
    (hread : IsRead v read)
    (htest : ∀ q, v.quantity? = some q →
      k.Accepts v ∧ test q = .ok () ∨ ¬ k.Accepts v ∧ test q = refuseSetting k.key v reason) :
    Ending k v (read >>= test) := by
  cases hread with
  | @other b h hb =>
    have hf : ¬ k.Fits v := by
      rw [hfits, h]
      rintro ⟨q, hq⟩
      cases hq
    exact .misfit hf hb
  | @number q h =>
    have hbind : (Except.ok q >>= test : Outcome Unit) = test q := rfl
    rw [hbind]
    rcases htest q h with ⟨ha, ht⟩ | ⟨ha, ht⟩
    · rw [ht]
      exact .accepted ha
    · rw [ht]
      exact Setting.ending_refuseSetting hk (hfits.2 ⟨q, h⟩) ha hr

theorem ending_maxArchiveMb (s : Settings) : Ending .maxArchiveMb (s .maxArchiveMb) s.checkArchiveLimit := by
  have hr : "must be positive" ∈ Setting.reasons := by simp [Setting.reasons]
  refine ending_number (by decide) hr Iff.rfl (isRead_leftOf "<=" _) fun q hq => ?_
  cases hz : q.leInt 0 with
  | false => exact .inl ⟨⟨q, hq, hz⟩, rfl⟩
  | true =>
    refine .inr ⟨?_, rfl⟩
    rintro ⟨q', hq', hz'⟩
    cases hq.symm.trans hq'
    exact absurd (hz.symm.trans hz') (by decide)

/-- A count is accepted by its setting when it is a number that is not below one. -/
theorem ending_atLeastOne (hk : k ≠ .sourceExtensions) (hfits : k.Fits (s k) ↔ ∃ q, (s k).quantity? = some q)
    (haccepts : k.Accepts (s k) ↔ ∃ q, (s k).quantity? = some q ∧ q.ltInt 1 = false) :
    Ending k (s k) (s.checkAtLeastOne k) := by
  have hr : "must be at least 1" ∈ Setting.reasons := by simp [Setting.reasons]
  refine ending_number hk hr hfits (isRead_leftOf "<" _) fun q hq => ?_
  cases hz : q.ltInt 1 with
  | false => exact .inl ⟨haccepts.2 ⟨q, hq, hz⟩, rfl⟩
  | true =>
    refine .inr ⟨?_, rfl⟩
    rw [haccepts]
    rintro ⟨q', hq', hz'⟩
    cases hq.symm.trans hq'
    exact absurd (hz.symm.trans hz') (by decide)

theorem ending_workers (s : Settings) : Ending .workers (s .workers) (s.checkSetting .workers) := by
  rw [checkSetting]
  split
  · next h => exact .accepted (Or.inl h)
  · next h => exact ending_atLeastOne (by decide) (or_iff_right h) (or_iff_right h)

theorem ending_port (s : Settings) : Ending .port (s .port) s.checkPort := by
  have hr : "must be between 1 and 65535" ∈ Setting.reasons := by simp [Setting.reasons]
  refine ending_number (by decide) hr Iff.rfl (isRead_rightOf "<" _) fun q hq => ?_
  cases hz : (Value.Quantity.intLt 0 q && q.ltInt 65536) with
  | true => exact .inl ⟨⟨q, hq, Bool.and_eq_true_iff.1 hz⟩, rfl⟩
  | false =>
    refine .inr ⟨?_, rfl⟩
    rintro ⟨q', hq', hz'⟩
    cases hq.symm.trans hq'
    exact absurd (hz.symm.trans (Bool.and_eq_true_iff.2 hz')) (by decide)

theorem ending_verbosity (s : Settings) : Ending .verbosity (s .verbosity) s.checkVerbosity := by
  have hr : "must be quiet, normal or verbose" ∈ Setting.reasons := by simp [Setting.reasons]
  have hreject (h : ¬ Accepts .verbosity (s .verbosity)) :
      Ending .verbosity (s .verbosity) (s.reject .verbosity "must be quiet, normal or verbose") :=
    Setting.ending_refuseSetting (by decide) trivial h hr
  unfold checkVerbosity
  split
  · next word hw =>
    split
    · next hm => exact .accepted ⟨word, List.contains_iff_mem.1 hm, hw⟩
    · next hm =>
      refine hreject ?_
      rintro ⟨word', hm', hw'⟩
      cases hw.symm.trans hw'
      exact hm (List.contains_iff_mem.2 hm')
  · next hno =>
    refine hreject ?_
    rintro ⟨word, -, hw⟩
    exact hno word hw

/-- **How the check of a setting ends is told by its value.** -/
theorem ending (s : Settings) (k : Setting) : Ending k (s k) (s.checkSetting k) := by
  cases k with
  | sourceExtensions => exact ending_sourceExtensions _
  | maxArchiveMb => exact ending_maxArchiveMb s
  | maxFiles => exact ending_atLeastOne (by decide) Iff.rfl Iff.rfl
  | workers => exact ending_workers s
  | port => exact ending_port s
  | verbosity => exact ending_verbosity s
  | ignoredDirs | ignoredDirPrefixes | host | corsOrigins | logFile => exact .accepted trivial

/-! ## The checks in a row -/

theorem check_eq_forM (s : Settings) : s.check = forM Setting.checked s.checkSetting := by
  simp only [Setting.checked, List.forM_cons, List.forM_nil, check, checkSetting, bind_assoc, bind_pure_unit]
  -- only whether the workers are set decides whether there is a check of theirs
  cases s .workers <;> rfl

/-- Every setting accepts its default. -/
theorem accepts_fallback (k : Setting) : k.Accepts k.fallback := by
  cases k with
  | sourceExtensions => exact ⟨_, rfl, by decide +kernel⟩
  | maxArchiveMb | maxFiles => exact ⟨_, rfl, by decide +kernel⟩
  | workers => exact .inl rfl
  | port => exact ⟨_, rfl, by decide +kernel, by decide +kernel⟩
  | verbosity => exact ⟨"normal", by simp [verbosities], rfl⟩
  | ignoredDirs | ignoredDirPrefixes | host | corsOrigins | logFile => trivial

/-- The setting is the first of those checked that does not accept its value. -/
def IsFirstFlaw (s : Settings) (k : Setting) : Prop :=
  ∃ before after, Setting.checked = before ++ k :: after ∧ (∀ j ∈ before, j.Accepts (s j)) ∧ ¬ k.Accepts (s k)

theorem check_eq_ok_iff : s.check = .ok () ↔ ∀ k : Setting, k.Accepts (s k) := by
  rw [check_eq_forM, Outcome.forM_eq_ok_iff]
  constructor
  · intro h k
    by_cases hk : k ∈ Setting.checked
    · exact (s.ending k).eq_ok_iff.1 (h k hk)
    · cases k with
      | sourceExtensions | maxArchiveMb | maxFiles | workers | port | verbosity => exact absurd (by decide) hk
      | ignoredDirs | ignoredDirPrefixes | host | corsOrigins | logFile => trivial
  · intro h k _
    exact (s.ending k).eq_ok_iff.2 (h k)

/-- The defaults pass the check. -/
theorem check_fallback : fallback.check = .ok () := check_eq_ok_iff.2 accepts_fallback

/-- **The first setting that does not accept its value decides how the check fails.** -/
theorem check_eq_error_iff {e : Failure} :
    s.check = .error e ↔ ∃ k, s.IsFirstFlaw k ∧ s.checkSetting k = .error e := by
  rw [check_eq_forM, Outcome.forM_eq_error_iff]
  constructor
  · rintro ⟨before, k, after, hc, hb, hk⟩
    refine ⟨k, ⟨before, after, hc, fun j hj => (s.ending j).eq_ok_iff.1 (hb j hj), fun ha => ?_⟩, hk⟩
    cases hk.symm.trans ((s.ending k).eq_ok_iff.2 ha)
  · rintro ⟨k, ⟨before, after, hc, hb, -⟩, hk⟩
    exact ⟨before, k, after, hc, fun j hj => (s.ending j).eq_ok_iff.2 (hb j hj), hk⟩

/-- The breakdowns of the check that are not over a value of the wrong kind. -/
theorem check_broke_iff {b : Breakdown} : s.check = .error (.broke b) ∧ b.isWrongKind = false ↔
    ∃ k, s.IsFirstFlaw k ∧ k.BreaksOff (s k) b := by
  rw [check_eq_error_iff]
  constructor
  · rintro ⟨⟨k, hk, h⟩, hb⟩
    exact ⟨k, hk, (s.ending k).broke_iff.1 ⟨h, hb⟩⟩
  · rintro ⟨k, hk, h⟩
    obtain ⟨h, hb⟩ := (s.ending k).broke_iff.2 h
    exact ⟨⟨k, hk, h⟩, hb⟩

theorem exists_of_check_refused {r : Refusal} (h : s.check = .error (.refused r)) :
    ∃ (k : Setting) (blamed : Value), ∃ reason ∈ Setting.reasons, r = .invalidSetting k.key blamed reason := by
  obtain ⟨k, -, hk⟩ := check_eq_error_iff.1 h
  exact ⟨k, (s.ending k).exists_of_refused hk⟩

end Settings
end Cognitive
