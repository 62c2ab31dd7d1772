import Cognitive.Proofs.Number.Scaled
import Cognitive.Proofs.Settings.Loading
import Cognitive.Proofs.Settings.Selects
/-!
# What loaded settings are good for

The check of the settings looks at few of them, and compares where later uses convert and look for.  So not every use
of settings that are loaded gives something, and the uses that break off are listed: an archive's limit from a size that
is no number or has too many bytes (`Settings.LimitBreaksOff`), and the test of a folder's name by ignored folders that
hold nothing or by beginnings that are no texts (`Settings.IgnoringBreaksOff`).  The test of a source file's name never
breaks off, and nothing is ever refused (`Sources.settings_usable`).
-/
namespace Cognitive

open Number (Binary64)

/-- **An outcome that is given, unless it breaks off in one of some ways.**  It is never a refusal. -/
structure Outcome.IsGivenUnless {α : Type} (breaks : Breakdown → Prop) (o : Outcome α) : Prop where
  broke_iff : ∀ b, o = breakDown b ↔ breaks b
  given : (∀ b, ¬ breaks b) → ∃ a, o = .ok a

namespace Outcome

variable {α : Type} {breaks : Breakdown → Prop}

theorem isGivenUnless_ok {a : α} (h : ∀ b, ¬ breaks b) : IsGivenUnless breaks (.ok a : Outcome α) where
  broke_iff b := iff_of_false nofun (h b)
  given _ := ⟨a, rfl⟩

theorem isGivenUnless_breakDown {b : Breakdown} (h : breaks b) (hall : ∀ b', breaks b' → b' = b) :
    IsGivenUnless breaks (breakDown b : Outcome α) where
  broke_iff b' := by
    constructor
    · intro heq
      cases heq
      exact h
    · intro hb
      rw [hall b' hb]
  given hno := absurd h (hno b)

theorem IsGivenUnless.congr {breaks' : Breakdown → Prop} {o : Outcome α} (h : IsGivenUnless breaks o)
    (hb : ∀ b, breaks' b ↔ breaks b) : IsGivenUnless breaks' o where
  broke_iff b := (h.broke_iff b).trans (hb b).symm
  given hno := h.given fun b hbreaks => hno b ((hb b).2 hbreaks)

end Outcome

def Value.HasItems (v : Value) : Prop := ∃ items, v.items = .ok items

namespace Settings

open Outcome (IsGivenUnless isGivenUnless_ok isGivenUnless_breakDown)

variable {s : Settings} {name : String}

/-! ## The limit of archives -/

/-- **The sizes that give no limit**: what is no number, and what has too many bytes. -/
inductive LimitBreaksOff (s : Settings) : Breakdown → Prop where
  | notNumber (h : s .maxArchiveMb = .float .nan) : LimitBreaksOff s .sizeNotNumber
  | infinite {x : Binary64} {negative : Bool} (h : s .maxArchiveMb = .float x)
      (hx : x.mebibytes = .infinite negative) : LimitBreaksOff s .sizeInfinite

theorem archiveLimit_of_float {x : Binary64} (h : s .maxArchiveMb = .float x) :
    s.archiveLimit = match x.mebibytes with
      | .infinite _ => breakDown .sizeInfinite
      | .nan => breakDown .sizeNotNumber
      | bytes => .ok (bytes.truncate?.getD 0) := by
  unfold archiveLimit
  rw [h]
  rfl

theorem isGivenUnless_archiveLimit (h : Setting.maxArchiveMb.Accepts (s .maxArchiveMb)) :
    IsGivenUnless s.LimitBreaksOff s.archiveLimit := by
  obtain ⟨q, hq, -⟩ := h
  cases q with
  | whole n =>
    unfold archiveLimit
    rw [hq]
    refine isGivenUnless_ok fun b hb => ?_
    cases hb with
    | notNumber h | infinite h =>
      rw [h] at hq
      cases hq
  | real x =>
    have hsize : s .maxArchiveMb = .float x := by
      cases hv : s .maxArchiveMb <;> rw [hv] at hq <;> cases hq
      rfl
    rw [archiveLimit_of_float hsize]
    have hsame : ∀ {y}, s .maxArchiveMb = .float y → y = x := fun h => Value.float.inj (h.symm.trans hsize)
    cases hbytes : x.mebibytes with
    | finite negative units =>
      refine isGivenUnless_ok fun b hb => ?_
      cases hb with
      | notNumber h =>
        rw [← hsame h] at hbytes
        cases hbytes
      | infinite h hx =>
        rw [hsame h, hbytes] at hx
        cases hx
    | infinite negative =>
      refine isGivenUnless_breakDown (.infinite hsize hbytes) fun b hb => ?_
      cases hb with
      | notNumber h =>
        rw [← hsame h] at hbytes
        cases hbytes
      | infinite => rfl
    | nan =>
      refine isGivenUnless_breakDown (.notNumber (Binary64.mebibytes_eq_nan_iff.1 hbytes ▸ hsize)) fun b hb => ?_
      cases hb with
      | notNumber => rfl
      | infinite h hx =>
        rw [hsame h, hbytes] at hx
        cases hx

/-- **A size that is a double gives a limit exactly when it is below the limit of sizes.** -/
theorem exists_archiveLimit_iff {x : Binary64} (h : Setting.maxArchiveMb.Accepts (s .maxArchiveMb))
    (hx : s .maxArchiveMb = .float x) (hd : x.IsDouble) :
    (∃ n, s.archiveLimit = .ok n) ↔ x.ltInt Binary64.sizeLimit = true := by
  obtain ⟨q, hq, hpos⟩ := h
  have hreal : q = .real x := by
    rw [hx] at hq
    exact (Option.some.inj hq).symm
  subst hreal
  rw [← Binary64.isFinite_mebibytes_iff hd hpos, archiveLimit_of_float hx]
  cases x.mebibytes with
  | finite negative units => exact iff_of_true ⟨_, rfl⟩ rfl
  | infinite | nan => exact iff_of_false (fun ⟨_, h⟩ => nomatch h) nofun

/-! ## The tests of names -/

/-- Among the items comes one that is no text, and what comes before it does not pass the test. -/
def MeetsNoText (test : String → Bool) (items : List Value) (v : Value) : Prop :=
  v.str? = none ∧ ∃ before after, items = before ++ v :: after ∧ ∀ i ∈ before, ∃ text, i = .str text ∧ test text = false

theorem meetsNoText_cons {test : String → Bool} {first : Value} {rest : List Value} {v : Value} :
    MeetsNoText test (first :: rest) v ↔ v.str? = none ∧ first = v ∨
      (∃ text, first = .str text ∧ test text = false) ∧ MeetsNoText test rest v := by
  constructor
  · rintro ⟨hv, before, after, heq, hbefore⟩
    cases before with
    | nil => exact .inl ⟨hv, (List.cons.inj heq).1⟩
    | cons i before =>
      obtain ⟨rfl, rfl⟩ := List.cons.inj heq
      exact .inr ⟨hbefore _ List.mem_cons_self, hv, before, after, rfl,
        fun j hj => hbefore j (List.mem_cons_of_mem _ hj)⟩
  · rintro (⟨hv, rfl⟩ | ⟨hfirst, hv, before, after, rfl, hbefore⟩)
    · exact ⟨hv, [], rest, rfl, nofun⟩
    · exact ⟨hv, first :: before, after, rfl, List.forall_mem_cons.2 ⟨hfirst, hbefore⟩⟩

theorem isGivenUnless_anyText (test : String → Bool) (notText : String → Breakdown) : ∀ items : List Value,
    IsGivenUnless (fun b => ∃ v, MeetsNoText test items v ∧ b = notText v.kindName) (anyText test notText items)
  | [] => by
    refine isGivenUnless_ok fun b => ?_
    rintro ⟨v, ⟨-, before, after, h, -⟩, -⟩
    cases before <;> cases h
  | .str text :: rest => by
    have ih := isGivenUnless_anyText test notText rest
    have hcons : ∀ v, MeetsNoText test (.str text :: rest) v ↔ test text = false ∧ MeetsNoText test rest v := by
      intro v
      rw [meetsNoText_cons]
      constructor
      · rintro (⟨hv, rfl⟩ | ⟨⟨t, ht, hfalse⟩, h⟩)
        · cases hv
        · cases ht
          exact ⟨hfalse, h⟩
      · rintro ⟨hfalse, h⟩
        exact .inr ⟨⟨text, rfl, hfalse⟩, h⟩
    simp only [hcons]
    rw [anyText]
    cases test text with
    | true =>
      refine isGivenUnless_ok fun b => ?_
      rintro ⟨v, ⟨h, -⟩, -⟩
      cases h
    | false => simpa using ih
  | .null :: _ | .bool _ :: _ | .int _ :: _ | .float _ :: _ | .moment _ :: _ | .list _ :: _ | .table _ :: _ => by
    refine isGivenUnless_breakDown ⟨_, meetsNoText_cons.2 (.inl ⟨rfl, rfl⟩), rfl⟩ ?_
    rintro b ⟨v, hv, rfl⟩
    rcases meetsNoText_cons.1 hv with ⟨-, rfl⟩ | ⟨⟨_, h, -⟩, -⟩
    · rfl
    · cases h

theorem exists_isSource_of_accepts (h : Setting.sourceExtensions.Accepts (s .sourceExtensions)) (name : String) :
    ∃ b, s.isSource name = .ok b := by
  obtain ⟨items, hitems, hall⟩ := h
  obtain ⟨b, hb⟩ := (isGivenUnless_anyText (fun e => e.toList.isSuffixOf name.toList) .endNotText items).given (by
    rintro _ ⟨v, ⟨hv, before, after, rfl, -⟩, -⟩
    -- what is accepted as an extension is a text
    have htext := hall v (List.mem_append_right before List.mem_cons_self)
    cases v with
    | str text => cases hv
    | null | bool | int | float | moment | list | table => cases htext)
  exact ⟨b, Outcome.bind_eq_ok_iff.2 ⟨items, hitems, hb⟩⟩

theorem items_cases (v : Value) :
    (∃ items, v.items = .ok items) ∨ ¬ v.HasItems ∧ v.items = breakDown (.notIterable v.kindName) := by
  cases v with
  | str | list | table => exact .inl ⟨_, rfl⟩
  | null | bool | int | float | moment => exact .inr ⟨fun ⟨_, h⟩ => (nomatch h), rfl⟩

theorem holds_cases (v : Value) (name : String) :
    v.HasItems ∧ (∃ b, holds v name = .ok b ∧ (b = true ↔ v.Holds name)) ∨
      ¬ v.HasItems ∧ holds v name = breakDown (.notContainer v.kindName) := by
  cases v with
  | str | list | table => exact .inl ⟨⟨_, rfl⟩, _, rfl, holds_eq_ok rfl⟩
  | null | bool | int | float | moment => exact .inr ⟨fun ⟨_, h⟩ => (nomatch h), rfl⟩

/-- **The values by which a folder's name cannot be tested**: ignored folders without items, and beginnings that are
none of texts, as far as these are looked at. -/
inductive IgnoringBreaksOff (s : Settings) (name : String) : Breakdown → Prop where
  | notContainer (h : ¬ (s .ignoredDirs).HasItems) : IgnoringBreaksOff s name (.notContainer (s .ignoredDirs).kindName)
  | notIterable (hh : (s .ignoredDirs).HasItems) (hn : ¬ (s .ignoredDirs).Holds name)
      (h : ¬ (s .ignoredDirPrefixes).HasItems) :
      IgnoringBreaksOff s name (.notIterable (s .ignoredDirPrefixes).kindName)
  | noText {items : List Value} {v : Value} (hh : (s .ignoredDirs).HasItems) (hn : ¬ (s .ignoredDirs).Holds name)
      (h : (s .ignoredDirPrefixes).items = .ok items)
      (hv : MeetsNoText (fun p => p.toList.isPrefixOf name.toList) items v) :
      IgnoringBreaksOff s name (.startNotText v.kindName)

theorem isGivenUnless_isIgnored (s : Settings) (name : String) :
    IsGivenUnless (s.IgnoringBreaksOff name) (s.isIgnored name) := by
  unfold isIgnored
  rcases holds_cases (s .ignoredDirs) name with ⟨hh, held, hheld, hiff⟩ | ⟨hh, hheld⟩
  · rw [hheld]
    cases held with
    | true =>
      have hn : (s .ignoredDirs).Holds name := hiff.1 rfl
      refine isGivenUnless_ok fun b hb => ?_
      cases hb with
      | notContainer h => exact h hh
      | notIterable _ hn' | noText _ hn' => exact hn' hn
    | false =>
      have hn : ¬ (s .ignoredDirs).Holds name := fun hn => nomatch hiff.2 hn
      rcases items_cases (s .ignoredDirPrefixes) with ⟨items, hitems⟩ | ⟨hno, hitems⟩
      · have hany := isGivenUnless_anyText (fun p => p.toList.isPrefixOf name.toList) .startNotText items
        rw [hitems]
        refine hany.congr fun b => ?_
        constructor
        · intro hb
          cases hb with
          | notContainer h => exact absurd hh h
          | notIterable _ _ h => exact absurd ⟨items, hitems⟩ h
          | noText _ _ h hv =>
            rw [hitems] at h
            cases h
            exact ⟨_, hv, rfl⟩
        · rintro ⟨v, hv, rfl⟩
          exact .noText hh hn hitems hv
      · rw [hitems]
        refine isGivenUnless_breakDown (.notIterable hh hn hno) fun b hb => ?_
        cases hb with
        | notContainer h => exact absurd hh h
        | notIterable => rfl
        | noText _ _ h => exact absurd ⟨_, h⟩ hno
  · rw [hheld]
    refine isGivenUnless_breakDown (.notContainer hh) fun b hb => ?_
    cases hb with
    | notContainer => rfl
    | notIterable hh' | noText hh' => exact absurd hh' hh

end Settings

namespace Sources

open Outcome (IsGivenUnless)

/-- **What loaded settings are good for**: they tell source files by any name, and they give a limit of archives and
tell ignored folders, unless their values are among those that are listed. -/
theorem settings_usable {s : Sources} {c : Settings} (h : s.settings = .ok c) :
    IsGivenUnless c.LimitBreaksOff c.archiveLimit ∧
      (∀ x, c .maxArchiveMb = .float x → x.IsDouble →
        ((∃ n, c.archiveLimit = .ok n) ↔ x.ltInt Binary64.sizeLimit = true)) ∧
      ∀ name, (∃ b, c.isSource name = .ok b) ∧ IsGivenUnless (c.IgnoringBreaksOff name) (c.isIgnored name) := by
  have haccepts := accepts_of_settings h
  refine ⟨Settings.isGivenUnless_archiveLimit (haccepts .maxArchiveMb), fun x hx hd => ?_, fun name => ⟨?_, ?_⟩⟩
  · exact Settings.exists_archiveLimit_iff (haccepts .maxArchiveMb) hx hd
  · exact Settings.exists_isSource_of_accepts (haccepts .sourceExtensions) name
  · exact Settings.isGivenUnless_isIgnored c name

/-- The settings have a size that is no number and ignored folders that are the number five. -/
def isLoose (c : Settings) : Bool :=
  match c .maxArchiveMb, c .ignoredDirs with
  | .float .nan, .int 5 => true
  | _, _ => false

theorem eq_of_isLoose {c : Settings} (h : isLoose c = true) :
    c .maxArchiveMb = .float .nan ∧ c .ignoredDirs = .int 5 := by
  unfold isLoose at h
  split at h
  · next hsize hdirs => exact ⟨hsize, hdirs⟩
  · cases h

/-- A project's file with a size that is no number and ignored folders that are one. -/
def loose : Sources where
  globalFile := none
  projectFile := some ("cogmetrics.toml", .bytes "max_archive_mb=nan\nignored_dirs=5".toUTF8)
  namedFile := none
  environment := []
  overrides := []

theorem settings_usable_loose : ∃ c, loose.settings = .ok c ∧ c.archiveLimit = breakDown .sizeNotNumber ∧
    ∀ name, (∃ b, c.isSource name = .ok b) ∧ c.isIgnored name = breakDown (.notContainer "int") := by
  have hloose : loose.settings.toOption.map isLoose = some true := by decide +kernel
  obtain ⟨c, hc, hvalues⟩ := Option.map_eq_some_iff.1 hloose
  have hsettings : loose.settings = .ok c := by
    cases hs : loose.settings with
    | error e =>
      rw [hs] at hc
      cases hc
    | ok c' =>
      rw [hs] at hc
      cases hc
      rfl
  obtain ⟨hsize, hdirs⟩ := eq_of_isLoose hvalues
  obtain ⟨hlimit, -, hnames⟩ := settings_usable hsettings
  refine ⟨c, hsettings, (hlimit.broke_iff _).2 (.notNumber hsize), fun name => ⟨(hnames name).1, ?_⟩⟩
  have hno : ¬ (c .ignoredDirs).HasItems := by
    rw [hdirs]
    rintro ⟨items, h⟩
    cases h
  have hbreaks : c.IgnoringBreaksOff name (.notContainer (c .ignoredDirs).kindName) := .notContainer hno
  rw [hdirs] at hbreaks
  exact ((hnames name).2.broke_iff _).2 hbreaks

end Sources
end Cognitive
