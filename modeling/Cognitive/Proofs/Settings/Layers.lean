import Cognitive.Proofs.Settings.Check
import Cognitive.Proofs.Settings.Contribution
/-!
# The highest layer that sets a key decides

Settings come in layers that are merged one after the other.  What the merged table says of a key is what the highest
layer that sets it says (`Sources.get?_mergedTable_eq_some_iff`), and the first key in it that no setting has is the
first such key of the lowest layer that has one (`Sources.find?_keys_mergedTable`).  Nothing else of the layers tells in
the outcome, so a value that a higher layer goes before does not tell either (`Sources.settings_layered`).
-/
namespace Cognitive

namespace Settings

/-- No setting has the key. -/
def isUnknown (name : String) : Bool := (Setting.ofKey? name).isNone

theorem isUnknown_iff {name : String} : isUnknown name = true ↔ ∀ k : Setting, k.key ≠ name := by
  rw [isUnknown, Option.isNone_iff_eq_none, Setting.ofKey?_eq_none_iff]

theorem isUnknown_key (k : Setting) : isUnknown k.key = false := by
  cases h : isUnknown k.key with
  | false => rfl
  | true => exact absurd rfl (isUnknown_iff.1 h k)

theorem unknownKey?_eq : ∀ t : Table,
    unknownKey? t = (t.keys.find? isUnknown).bind fun name => (t.get? name).map (name, ·)
  | [] => rfl
  | (i, w) :: t => by
    have hstep : unknownKey? ((i, w) :: t) = if isUnknown i then some (i, w) else unknownKey? t := by
      rw [unknownKey?, List.find?_cons, isUnknown]
      cases (Setting.ofKey? i).isNone <;> rfl
    rw [hstep, Table.keys_cons, List.find?_cons]
    cases hi : isUnknown i with
    | true => simp [Table.get?]
    | false =>
      rw [if_neg (by decide), unknownKey?_eq t]
      cases hfound : (Table.keys t).find? isUnknown with
      | none => rfl
      | some name =>
        have hne : i ≠ name := by
          rintro rfl
          exact absurd (hi.symm.trans (List.find?_some hfound)) (by decide)
        simp [Table.get?, hne]

end Settings

namespace Sources

open Settings (isUnknown)

/-! ## Layers -/

/-- The files that settings come from, from the lowest to the highest. -/
inductive FileRole where
  | globalFile
  | projectFile
  | namedFile
deriving DecidableEq, Repr

def FileRole.all : List FileRole := [globalFile, projectFile, namedFile]

/-- The layers of settings. -/
inductive Layer where
  | file (r : FileRole)
  | environment
  | overrides
deriving DecidableEq, Repr

namespace Layer

/-- The layers from the lowest to the highest. -/
def all : List Layer := FileRole.all.map file ++ [environment, overrides]

def rank : Layer → Nat
  | file .globalFile => 0
  | file .projectFile => 1
  | file .namedFile => 2
  | environment => 3
  | overrides => 4

instance : LT Layer := ⟨fun l m => l.rank < m.rank⟩

instance (l m : Layer) : Decidable (l < m) := Nat.decLt l.rank m.rank

theorem mem_all (l : Layer) : l ∈ all := by
  rcases l with (_ | _ | _) | _ | _ <;> decide

theorem pairwise_all : all.Pairwise (· < ·) := by decide

/-- In a list of all layers that is in some order, the first layer with an answer is the first in that order. -/
theorem findSome?_eq_some_iff {α : Type} {r : Layer → Layer → Prop} {ls : List Layer} {g : Layer → Option α} {a : α}
    (hp : ls.Pairwise r) (hall : ∀ l, l ∈ ls) (hasymm : ∀ l m, r l m → ¬ r m l) :
    ls.findSome? g = some a ↔ ∃ l, g l = some a ∧ ∀ m, r m l → g m = none := by
  rw [List.findSome?_eq_some_iff]
  constructor
  · rintro ⟨before, l, after, rfl, hl, hb⟩
    refine ⟨l, hl, fun m hm => ?_⟩
    have hlater : ∀ n ∈ after, r l n := fun n => List.rel_of_pairwise_cons (List.pairwise_append.1 hp).2.1
    rcases List.mem_append.1 (hall m) with h | h
    · exact hb m h
    · rcases List.mem_cons.1 h with rfl | h
      · exact absurd hm (hasymm m m hm)
      · exact absurd hm (hasymm l m (hlater m h))
  · rintro ⟨l, hl, hb⟩
    obtain ⟨before, after, rfl⟩ := List.append_of_mem (hall l)
    refine ⟨before, l, after, rfl, hl, fun m hm => hb m ?_⟩
    exact (List.pairwise_append.1 hp).2.2 m hm l List.mem_cons_self

theorem findSome?_reverse_all_eq_some_iff {α : Type} {g : Layer → Option α} {a : α} :
    all.reverse.findSome? g = some a ↔ ∃ l, g l = some a ∧ ∀ m, l < m → g m = none :=
  findSome?_eq_some_iff (r := fun l m => m < l) (List.pairwise_reverse.2 pairwise_all)
    (fun l => List.mem_reverse.2 (mem_all l)) fun _ _ h h' => Nat.lt_asymm h h'

end Layer

variable {s : Sources} {tables : FileRole → Table} {env : Table} {name : String} {v : Value}

/-- The file in a role with its path, where it is there. -/
def fileIn (s : Sources) : FileRole → Option (String × SettingsFile)
  | .globalFile => s.globalFile
  | .projectFile => s.projectFile
  | .namedFile => s.namedFile.bind fun named => named.2.map (named.1, ·)

/-- A file holds a table; one that is not there holds nothing. -/
inductive Holds : Option (String × SettingsFile) → Table → Prop where
  | absent : Holds none []
  | content {path : String} {bytes : ByteArray} {t : Table} (h : Toml.readBytes bytes = .ok t) :
    Holds (some (path, .bytes bytes)) t

/-- **Every file holds its table**, the file that is named is there, and no override is given twice. -/
structure Reads (s : Sources) (tables : FileRole → Table) : Prop where
  file : ∀ r, Holds (s.fileIn r) (tables r)
  named : ∀ path, s.namedFile ≠ some (path, none)
  overrides : s.overrides.keys.Nodup

/-- **What a layer sets.** -/
def Sets (s : Sources) (tables : FileRole → Table) : Layer → String → Value → Prop
  | .file r => FileSets (tables r)
  | .environment => s.environment.Sets
  | .overrides => OverridesSet s.overrides

/-- **What the layers give for a key**: what the highest layer that sets it sets it to. -/
def Gives (s : Sources) (tables : FileRole → Table) (name : String) (v : Value) : Prop :=
  ∃ l, s.Sets tables l name v ∧ ∀ m, l < m → ∀ w, ¬ s.Sets tables m name w

/-- The keys of a layer in their order; those of the environment are all known. -/
def keysOf (s : Sources) (tables : FileRole → Table) : Layer → List String
  | .file r => (sectionOf (tables r)).keys
  | .environment => []
  | .overrides => (overrideLayer s.overrides).keys

/-- The first key that no setting has, from the lowest layer upwards. -/
def firstUnknown? (s : Sources) (tables : FileRole → Table) : Option String :=
  (Layer.all.flatMap (s.keysOf tables)).find? isUnknown

/-! ## The merged table -/

/-- The table of a layer, with that of the environment given. -/
def layerTable (s : Sources) (tables : FileRole → Table) (env : Table) : Layer → Table
  | .file r => sectionOf (tables r)
  | .environment => env
  | .overrides => overrideLayer s.overrides

def mergedTable (s : Sources) (tables : FileRole → Table) (env : Table) : Table :=
  (Layer.all.map (s.layerTable tables env)).foldl Table.merge []

theorem layerOf_eq_ok {role path : String} {file : SettingsFile} {t : Table} (h : Holds (some (path, file)) t) :
    layerOf role path file = .ok (sectionOf t) := by
  cases h with
  | content h => rw [layerOf, h]

theorem optionalLayer_eq_ok {role : String} {file : Option (String × SettingsFile)} {t : Table} (h : Holds file t) :
    optionalLayer role file = .ok (sectionOf t) := by
  cases file with
  | none =>
    cases h
    rfl
  | some file => exact layerOf_eq_ok h

theorem namedLayer_eq_ok {t : Table} (h : Holds (s.fileIn .namedFile) t)
    (hn : ∀ path, s.namedFile ≠ some (path, none)) : namedLayer s.namedFile = .ok (sectionOf t) := by
  unfold fileIn at h
  generalize s.namedFile = named at h hn
  rcases named with _ | ⟨path, _ | file⟩
  · cases h
    rfl
  · exact absurd rfl (hn path)
  · exact layerOf_eq_ok h

/-- What the file in a role sets. -/
def fileLayer (s : Sources) : FileRole → Outcome Table
  | .globalFile => optionalLayer "global config" s.globalFile
  | .projectFile => optionalLayer "project config" s.projectFile
  | .namedFile => namedLayer s.namedFile

theorem layers_eq (s : Sources) : s.layers = FileRole.all.mapM s.fileLayer >>= fun files =>
    s.environment.table.map fun env => files ++ [env, overrideLayer s.overrides] := by
  simp only [FileRole.all, List.mapM_cons, List.mapM_nil, bind_assoc, pure_bind]
  rfl

theorem fileLayer_eq_ok (h : s.Reads tables) (r : FileRole) : s.fileLayer r = .ok (sectionOf (tables r)) := by
  cases r with
  | globalFile => exact optionalLayer_eq_ok (h.file .globalFile)
  | projectFile => exact optionalLayer_eq_ok (h.file .projectFile)
  | namedFile => exact namedLayer_eq_ok (h.file .namedFile) h.named

/-- When the files hold tables, the layers are merged unless a variable cannot be read. -/
theorem merged_eq (h : s.Reads tables) : s.merged = s.environment.table.map (s.mergedTable tables) := by
  have hfiles : FileRole.all.mapM s.fileLayer = .ok (FileRole.all.map fun r => sectionOf (tables r)) := by
    simp only [FileRole.all, List.mapM_cons, fileLayer_eq_ok h]
    rfl
  rw [merged, layers_eq, hfiles]
  cases s.environment.table <;> rfl

theorem wellKeyed_of_holds {file : Option (String × SettingsFile)} {t : Table} (h : Holds file t) : t.WellKeyed := by
  cases h with
  | absent => exact Table.wellKeyed_nil
  | content h => exact Toml.wellKeyed_readBytes h

theorem nodup_keys_layerTable (h : s.Reads tables) (henv : s.environment.table = .ok env) (l : Layer) :
    (s.layerTable tables env l).keys.Nodup := by
  cases l with
  | file r => exact nodup_keys_sectionOf (wellKeyed_of_holds (h.file r))
  | environment => exact Environment.nodup_keys henv
  | overrides => exact nodup_keys_overrideLayer h.overrides

theorem get?_layerTable_eq_some_iff (h : s.Reads tables) (henv : s.environment.table = .ok env) {l : Layer} :
    (s.layerTable tables env l).get? name = some v ↔ s.Sets tables l name v := by
  cases l with
  | file r => exact get?_sectionOf_eq_some_iff
  | environment => exact Environment.get?_eq_some_iff henv
  | overrides => exact get?_overrideLayer_eq_some_iff h.overrides

theorem get?_layerTable_eq_none_iff (h : s.Reads tables) (henv : s.environment.table = .ok env) {l : Layer} :
    (s.layerTable tables env l).get? name = none ↔ ∀ w, ¬ s.Sets tables l name w := by
  rw [Option.eq_none_iff_forall_ne_some]
  exact forall_congr' fun w => not_congr (get?_layerTable_eq_some_iff h henv)

theorem get?_mergedTable (h : s.Reads tables) (henv : s.environment.table = .ok env) :
    (s.mergedTable tables env).get? name =
      Layer.all.reverse.findSome? fun l => (s.layerTable tables env l).get? name := by
  have hn : ∀ layer ∈ Layer.all.map (s.layerTable tables env), layer.keys.Nodup := by
    intro layer hl
    obtain ⟨l, -, rfl⟩ := List.mem_map.1 hl
    exact nodup_keys_layerTable h henv l
  rw [mergedTable, Table.get?_foldl_merge hn, Table.get?, Option.or_none, ← List.map_reverse, List.findSome?_map]
  rfl

/-- **The merged table says of a key what the highest layer that sets it says.** -/
theorem get?_mergedTable_eq_some_iff (h : s.Reads tables) (henv : s.environment.table = .ok env) :
    (s.mergedTable tables env).get? name = some v ↔ s.Gives tables name v := by
  rw [get?_mergedTable h henv, Layer.findSome?_reverse_all_eq_some_iff]
  simp only [get?_layerTable_eq_some_iff h henv, get?_layerTable_eq_none_iff h henv]
  rfl

theorem get?_mergedTable_eq_none_iff (h : s.Reads tables) (henv : s.environment.table = .ok env) :
    (s.mergedTable tables env).get? name = none ↔ ∀ l w, ¬ s.Sets tables l name w := by
  rw [get?_mergedTable h henv, List.findSome?_eq_none_iff]
  simp only [List.mem_reverse, Layer.mem_all, forall_const, get?_layerTable_eq_none_iff h henv]

theorem find?_isUnknown_environment (henv : s.environment.table = .ok env) : env.keys.find? isUnknown = none := by
  rw [List.find?_eq_none]
  intro name hn
  obtain ⟨v, hv⟩ := Table.exists_get?_iff.2 hn
  obtain ⟨k, rfl⟩ := ((Environment.get?_eq_some_iff henv).1 hv).exists_setting
  rw [Settings.isUnknown_key]
  decide

/-- **The first unknown key of the merged table is the first of the lowest layer that has one.** -/
theorem find?_keys_mergedTable (henv : s.environment.table = .ok env) :
    (s.mergedTable tables env).keys.find? isUnknown = s.firstUnknown? tables := by
  rw [mergedTable, Table.find?_keys_foldl_merge, firstUnknown?, List.findSome?_map, List.find?_flatMap]
  have hnil : (Table.keys []).find? isUnknown = none := rfl
  rw [hnil, Option.none_or]
  congr 1
  funext l
  cases l with
  | file r => rfl
  | environment => exact find?_isUnknown_environment henv
  | overrides => rfl

/-! ## The outcome -/

/-- What a merged table comes to. -/
def settle (t : Table) : Outcome Settings :=
  match Settings.unknownKey? t with
  | some (name, v) => refuseSetting name v "unknown configuration key"
  | none => refuseWrongKinds (Settings.ofFields t)

theorem settings_eq (s : Sources) : s.settings = s.merged >>= settle := rfl

theorem ofFields_eq {t : Table} (h : Settings.unknownKey? t = none) :
    Settings.ofFields t = (Settings.ofTable t).check.map fun _ => Settings.ofTable t := by
  unfold Settings.ofFields
  rw [h]
  simp only
  cases (Settings.ofTable t).check <;> rfl

theorem refuseWrongKinds_eq_ok_iff {α : Type} {o : Outcome α} {a : α} : refuseWrongKinds o = .ok a ↔ o = .ok a := by
  unfold refuseWrongKinds
  split
  · split <;> exact iff_of_false (fun h => nomatch h) fun h => nomatch h
  · rfl

theorem settle_eq_ok {t : Table} {c : Settings} (h : settle t = .ok c) :
    c = Settings.ofTable t ∧ c.check = .ok () := by
  unfold settle at h
  split at h
  · unfold refuseSetting at h
    split at h <;> cases h
  · next hnone =>
    rw [refuseWrongKinds_eq_ok_iff, ofFields_eq hnone] at h
    obtain ⟨⟨⟩, hcheck, rfl⟩ := Outcome.map_eq_ok_iff.1 h
    exact ⟨rfl, hcheck⟩

/-- Only what a table says of keys and its first unknown key tell in the outcome. -/
theorem settle_congr {t t' : Table} (hg : ∀ name, t.get? name = t'.get? name)
    (hu : t.keys.find? isUnknown = t'.keys.find? isUnknown) : settle t = settle t' := by
  have hunknown : Settings.unknownKey? t = Settings.unknownKey? t' := by
    rw [Settings.unknownKey?_eq, Settings.unknownKey?_eq, hu]
    simp only [hg]
  have htable : Settings.ofTable t = Settings.ofTable t' := by
    funext k
    rw [Settings.ofTable, Settings.ofTable, hg]
  unfold settle
  rw [← hunknown]
  split
  · rfl
  · next hnone => rw [ofFields_eq hnone, ofFields_eq (hunknown ▸ hnone), htable]

theorem settle_of_unknown {t : Table} (hu : t.keys.find? isUnknown = some name) (hv : t.get? name = some v) :
    settle t = refuseSetting name v "unknown configuration key" := by
  have hunknown : Settings.unknownKey? t = some (name, v) := by
    rw [Settings.unknownKey?_eq, hu, Option.bind_some, hv]
    rfl
  unfold settle
  rw [hunknown]

/-- Without unknown keys nothing is said of unknown keys. -/
theorem settle_of_known {t : Table} (hu : t.keys.find? isUnknown = none) :
    settle t ≠ refuse (.invalidSetting name v "unknown configuration key") := by
  have hunknown : Settings.unknownKey? t = none := by
    rw [Settings.unknownKey?_eq, hu]
    rfl
  unfold settle
  rw [hunknown]
  simp only
  rw [ofFields_eq hunknown]
  cases hc : (Settings.ofTable t).check with
  | ok => exact fun h => nomatch h
  | error e =>
    intro h
    cases e with
    | broke b =>
      simp only [Except.map, refuseWrongKinds] at h
      split at h
      · have hcls : (Refusal.general _).cls = (Refusal.invalidSetting name v _).cls :=
          congrArg Refusal.cls (Failure.refused.inj (Except.error.inj h))
        cases hcls
      · cases h
    | refused r =>
      obtain ⟨k, blamed, reason, hr, rfl⟩ := Settings.exists_of_check_refused hc
      have hreason : reason = "unknown configuration key" := by
        have heq := congrArg Refusal.details (Failure.refused.inj (Except.error.inj h))
        simp only [Refusal.invalidSetting, List.cons.injEq, Prod.mk.injEq, true_and, and_true] at heq
        exact heq.2.2
      rw [hreason] at hr
      exact absurd hr (by decide)

/-! ## Agreement -/

/-- The sources read the same but for the value of one setting in one file. -/
structure AgreesBut (s s' : Sources) (tables tables' : FileRole → Table) (r : FileRole) (k : Setting) : Prop where
  environment : s'.environment = s.environment
  overrides : s'.overrides = s.overrides
  others : ∀ r', r' ≠ r → tables' r' = tables r'
  entries : Table.only (· != k.key) (sectionOf (tables' r)) = Table.only (· != k.key) (sectionOf (tables r))

namespace AgreesBut

variable {s' : Sources} {tables' : FileRole → Table} {r : FileRole} {k : Setting} {l : Layer}

theorem symm (h : s.AgreesBut s' tables tables' r k) : s'.AgreesBut s tables' tables r k where
  environment := h.environment.symm
  overrides := h.overrides.symm
  others r' hr := (h.others r' hr).symm
  entries := h.entries.symm

theorem sets_iff_of_ne_layer (h : s.AgreesBut s' tables tables' r k) (hl : l ≠ .file r) :
    s'.Sets tables' l name v ↔ s.Sets tables l name v := by
  cases l with
  | file r' =>
    have hr : r' ≠ r := fun heq => hl (heq ▸ rfl)
    rw [Sets, Sets, h.others r' hr]
  | environment => rw [Sets, Sets, h.environment]
  | overrides => rw [Sets, Sets, h.overrides]

theorem sets_iff_of_ne_key (h : s.AgreesBut s' tables tables' r k) (hn : name ≠ k.key) :
    s'.Sets tables' l name v ↔ s.Sets tables l name v := by
  by_cases hl : l = .file r
  · subst hl
    have hkeep : (name != k.key) = true := by simpa using hn
    have hget := congrArg (Table.get? · name) h.entries
    simp only [Table.get?_only, if_pos hkeep] at hget
    rw [Sets, Sets, ← get?_sectionOf_eq_some_iff, ← get?_sectionOf_eq_some_iff, hget]
  · exact h.sets_iff_of_ne_layer hl

/-- A layer above the file gives what it gave before, and so does every layer above it. -/
theorem gives_key (h : s.AgreesBut s' tables tables' r k) (hl : .file r < l) (hv : s.Sets tables l k.key v)
    {w : Value} (hw : s.Gives tables k.key w) : s'.Gives tables' k.key w := by
  obtain ⟨m, hm, hhigher⟩ := hw
  have hlm : ¬ m < l := fun hlt => hhigher l hlt v hv
  have habove {n : Layer} (hn : m.rank ≤ n.rank) : n ≠ .file r := by
    rintro rfl
    have hlt : (Layer.file r).rank < l.rank := hl
    have hge : ¬ m.rank < l.rank := hlm
    omega
  refine ⟨m, (h.sets_iff_of_ne_layer (habove (Nat.le_refl _))).2 hm, fun n hn u hu => hhigher n hn u ?_⟩
  exact (h.sets_iff_of_ne_layer (habove (Nat.le_of_lt hn))).1 hu

/-- **What the layers give is the same**, for a setting that a layer above the file sets. -/
theorem gives_iff (h : s.AgreesBut s' tables tables' r k) (hl : .file r < l) (hv : s.Sets tables l k.key v)
    {w : Value} : s'.Gives tables' name w ↔ s.Gives tables name w := by
  by_cases hn : name = k.key
  · subst hn
    have hne : l ≠ .file r := by
      rintro rfl
      exact Nat.lt_irrefl _ hl
    exact ⟨h.symm.gives_key hl ((h.sets_iff_of_ne_layer hne).2 hv), h.gives_key hl hv⟩
  · simp only [Gives, h.sets_iff_of_ne_key hn]

theorem firstUnknown?_eq (h : s.AgreesBut s' tables tables' r k) :
    s'.firstUnknown? tables' = s.firstUnknown? tables := by
  have hlayer : ∀ l, (s'.keysOf tables' l).find? isUnknown = (s.keysOf tables l).find? isUnknown := by
    intro l
    cases l with
    | file r' =>
      by_cases hr : r' = r
      · subst hr
        have hskip : ∀ t : Table, t.keys.find? isUnknown = (t.only (· != k.key)).keys.find? isUnknown := by
          intro t
          rw [Table.keys_only, List.find?_filter]
          congr 1
          funext name
          by_cases hn : name = k.key
          · simp [hn, Settings.isUnknown_key]
          · simp [hn]
        rw [keysOf, keysOf, hskip, h.entries, ← hskip]
      · rw [keysOf, keysOf, h.others r' hr]
    | environment => rfl
    | overrides => rw [keysOf, keysOf, h.overrides]
  rw [firstUnknown?, firstUnknown?, List.find?_flatMap, List.find?_flatMap]
  exact congrArg (Layer.all.findSome? ·) (funext hlayer)

end AgreesBut

/-! ## The layering -/

/-- **The settings are layered.** -/
structure IsLayered (s : Sources) (tables : FileRole → Table) : Prop where
  /-- Each setting has the value that the layers give, and its default where none of them sets it. -/
  value : ∀ c, s.settings = .ok c → ∀ k : Setting,
    s.Gives tables k.key (c k) ∨ (∀ l v, ¬ s.Sets tables l k.key v) ∧ c k = k.fallback
  /-- A value of a file that a higher layer goes before does not tell. -/
  masked : ∀ (s' : Sources) (tables' : FileRole → Table) r k l v, s'.Reads tables' →
    s.AgreesBut s' tables tables' r k → .file r < l → s.Sets tables l k.key v → s'.settings = s.settings
  /-- Where some key is unknown the first one is refused, provided that its value can be written. -/
  unknown : s.environment.Reads → ∀ l name v, s.Sets tables l name v → (∀ k : Setting, k.key ≠ name) →
    ∃ first w, s.firstUnknown? tables = some first ∧ s.Gives tables first w ∧
      s.settings = if w.isTooLong then breakDown (.numeral .tooLongToWrite)
        else refuse (.invalidSetting first w "unknown configuration key")
  /-- No known key is refused as unknown. -/
  known : s.environment.Reads → (∀ l name v, s.Sets tables l name v → ∃ k : Setting, k.key = name) →
    ∀ name v, s.settings ≠ refuse (.invalidSetting name v "unknown configuration key")

theorem settings_of_table (h : s.Reads tables) (henv : s.environment.table = .ok env) :
    s.settings = settle (s.mergedTable tables env) := by
  rw [settings_eq, merged_eq h, henv]
  rfl

theorem exists_gives (h : s.Reads tables) (henv : s.environment.table = .ok env) {l : Layer}
    (hv : s.Sets tables l name v) : ∃ w, s.Gives tables name w := by
  cases hg : (s.mergedTable tables env).get? name with
  | some w => exact ⟨w, (get?_mergedTable_eq_some_iff h henv).1 hg⟩
  | none => exact absurd hv ((get?_mergedTable_eq_none_iff h henv).1 hg l v)

theorem firstUnknown?_eq_none_iff (h : s.Reads tables) (henv : s.environment.table = .ok env) :
    s.firstUnknown? tables = none ↔ ∀ l name v, s.Sets tables l name v → isUnknown name = false := by
  rw [← find?_keys_mergedTable henv, List.find?_eq_none]
  constructor
  · intro hall l name v hv
    obtain ⟨w, hw⟩ := exists_gives h henv hv
    have hmem := Table.exists_get?_iff.1 ⟨w, (get?_mergedTable_eq_some_iff h henv).2 hw⟩
    simpa using hall name hmem
  · intro hall name hmem
    obtain ⟨w, hw⟩ := Table.exists_get?_iff.2 hmem
    obtain ⟨l, hl, -⟩ := (get?_mergedTable_eq_some_iff h henv).1 hw
    rw [hall l name w hl]
    decide

theorem gives_or_default (h : s.Reads tables) (henv : s.environment.table = .ok env) (k : Setting) :
    s.Gives tables k.key (Settings.ofTable (s.mergedTable tables env) k) ∨
      (∀ l v, ¬ s.Sets tables l k.key v) ∧ Settings.ofTable (s.mergedTable tables env) k = k.fallback := by
  cases hg : (s.mergedTable tables env).get? k.key with
  | some w =>
    rw [Settings.ofTable, hg]
    exact .inl ((get?_mergedTable_eq_some_iff h henv).1 hg)
  | none =>
    rw [Settings.ofTable, hg]
    exact .inr ⟨(get?_mergedTable_eq_none_iff h henv).1 hg, rfl⟩

theorem settings_eq_of_agreesBut {s' : Sources} {tables' : FileRole → Table} {r : FileRole} {k : Setting} {l : Layer}
    (h : s.Reads tables) (h' : s'.Reads tables') (ha : s.AgreesBut s' tables tables' r k) (hl : .file r < l)
    (hv : s.Sets tables l k.key v) : s'.settings = s.settings := by
  cases henv : s.environment.table with
  | error e => rw [settings_eq, settings_eq, merged_eq h, merged_eq h', ha.environment, henv]; rfl
  | ok env =>
    have henv' : s'.environment.table = .ok env := by rw [ha.environment, henv]
    rw [settings_of_table h henv, settings_of_table h' henv']
    refine settle_congr (fun name => Option.ext fun w => ?_) ?_
    · rw [get?_mergedTable_eq_some_iff h henv, get?_mergedTable_eq_some_iff h' henv', ha.gives_iff hl hv]
    · rw [find?_keys_mergedTable henv, find?_keys_mergedTable henv', ha.firstUnknown?_eq]

/-- A global file with a port that no service may have, a variable with another, and both switches. -/
def crossed : Sources where
  globalFile := some ("/home/.cogmetrics.toml", .bytes "port=0".toUTF8)
  projectFile := none
  namedFile := none
  environment := [("COGMETRICS_PORT", "8080")]
  overrides := [("quiet", .bool true), ("verbosity", .str "normal"), ("verbose", .bool true)]

def crossedTables : FileRole → Table
  | .globalFile => [("port", .int 0)]
  | _ => []

/-- A document has been read that sets a port of zero and nothing else. -/
def isZeroPort : Except Toml.Fault Table → Bool
  | .ok [(name, .int n)] => name == "port" && n == 0
  | _ => false

theorem eq_of_isZeroPort {o : Except Toml.Fault Table} (h : isZeroPort o = true) : o = .ok [("port", .int 0)] := by
  unfold isZeroPort at h
  split at h
  · simp only [Bool.and_eq_true, beq_iff_eq] at h
    rw [h.1, h.2]
  · cases h

theorem reads_crossed : crossed.Reads crossedTables where
  file r := by
    cases r with
    | globalFile =>
      exact .content (eq_of_isZeroPort (by decide +kernel))
    | projectFile | namedFile => exact .absent
  named _ h := nomatch h
  overrides := by decide

end Sources
end Cognitive
