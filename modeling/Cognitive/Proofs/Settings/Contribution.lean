import Cognitive.Proofs.Toml.Keys
import Cognitive.Settings.Layers
/-!
# What a layer of settings sets

A file sets the entries of the program's own table where it has one, else all of its entries (`Sources.FileSets`).  The
environment sets the settings whose variables are there, but no lists (`Environment.Sets`).  Overrides set what they
are, unless they are nothing, and two switches go before a verbosity among them (`Sources.OverridesSet`).  The table that
each layer comes to has no key twice and says exactly this.
-/
namespace Cognitive

namespace Setting

theorem mem_all (k : Setting) : k ∈ all := by cases k <;> decide

theorem nodup_keys_all : (all.map key).Nodup := by decide

theorem ofKey?_eq_none_iff {name : String} : ofKey? name = none ↔ ∀ k : Setting, k.key ≠ name := by
  rw [ofKey?, List.find?_eq_none]
  simp [mem_all]

end Setting

namespace Environment

variable {env : Environment} {t : Table} {name : String} {v : Value}

/-- **What the environment sets**: a variable sets its setting to what its text is read as.  Lists are not set. -/
inductive Sets (env : Environment) : String → Value → Prop where
  | variable (k : Setting) {raw : String} {v : Value} (hk : k.envKind ≠ .structured)
      (hr : env.lookup k.envName = some raw) (hv : k.envKind.read raw = .ok (some v)) : Sets env k.key v

/-- Every variable that is there can be read. -/
def Reads (env : Environment) : Prop :=
  ∀ (k : Setting) raw, env.lookup k.envName = some raw → ∃ v, k.envKind.read raw = .ok v

theorem setting_eq_some_iff {k : Setting} {e : String × Value} : env.setting k = .ok (some e) ↔
    e.1 = k.key ∧ ∃ raw, env.lookup k.envName = some raw ∧ k.envKind.read raw = .ok (some e.2) := by
  unfold setting
  cases hr : env.lookup k.envName with
  | none => simp
  | some raw =>
    cases hv : k.envKind.read raw with
    | error fault => simp [hv, refuseSetting, Value.isTooLong, refuse]
    | ok read =>
      cases read with
      | none => simp [hv]
      | some w =>
        obtain ⟨name, v⟩ := e
        simp [hv, eq_comm]

theorem exists_table (h : env.Reads) : ∃ t, env.table = .ok t := by
  have hall : ∀ k ∈ Setting.all, ∃ o, env.setting k = .ok o := by
    intro k _
    unfold setting
    split
    · exact ⟨_, rfl⟩
    · next raw hraw =>
      obtain ⟨v, hv⟩ := h k raw hraw
      exact ⟨_, by rw [hv]⟩
  obtain ⟨os, hos⟩ := Outcome.exists_mapM_eq_ok hall
  exact ⟨_, Outcome.bind_eq_ok_iff.2 ⟨os, hos, rfl⟩⟩

theorem keys_sublist {ks : List Setting} {os : List (Option (String × Value))}
    (h : List.Forall₂ (fun k o => env.setting k = .ok o) ks os) :
    (Table.keys (os.filterMap id)).Sublist (ks.map Setting.key) := by
  induction h with
  | nil => exact .slnil
  | @cons k o ks os ho _ ih =>
    cases o with
    | none => exact ih.cons _
    | some e =>
      obtain ⟨name, v⟩ := e
      obtain ⟨rfl, -⟩ := setting_eq_some_iff.1 ho
      exact ih.cons_cons _

theorem nodup_keys (h : env.table = .ok t) : t.keys.Nodup := by
  obtain ⟨os, hos, h⟩ := Outcome.bind_eq_ok_iff.1 h
  cases h
  exact Setting.nodup_keys_all.sublist (keys_sublist (Outcome.mapM_eq_ok_iff.1 hos))

/-- The table of the environment says what the environment sets. -/
theorem get?_eq_some_iff (h : env.table = .ok t) : t.get? name = some v ↔ env.Sets name v := by
  have hmem : (name, v) ∈ t ↔ ∃ k ∈ Setting.all, env.setting k = .ok (some (name, v)) := by
    obtain ⟨os, hos, h⟩ := Outcome.bind_eq_ok_iff.1 h
    cases h
    rw [← Outcome.mem_iff_of_mapM hos]
    simp
  constructor
  · intro hg
    obtain ⟨k, -, hk⟩ := hmem.1 (Table.mem_of_get? hg)
    obtain ⟨rfl, raw, hr, hv⟩ := setting_eq_some_iff.1 hk
    refine .variable k (fun hs => ?_) hr hv
    rw [hs] at hv
    cases hv
  · rintro ⟨k, -, hr, hv⟩
    exact Table.get?_of_mem (nodup_keys h) (hmem.2 ⟨k, k.mem_all, setting_eq_some_iff.2 ⟨rfl, _, hr, hv⟩⟩)

theorem Sets.exists_setting (h : env.Sets name v) : ∃ k : Setting, k.key = name := by
  obtain ⟨k, -, -, -⟩ := h
  exact ⟨k, rfl⟩

end Environment

namespace Sources

variable {t overrides : Table} {name : String} {v : Value}

/-- **What a file sets**: the entries of the program's own table, where the file has one, else all of its entries. -/
inductive FileSets (t : Table) (name : String) (v : Value) : Prop where
  | own {own : Table} (h : t.get? "cogmetrics" = some (.table own)) (hv : own.get? name = some v)
  | whole (h : ∀ own, t.get? "cogmetrics" ≠ some (.table own)) (hv : t.get? name = some v)

theorem get?_sectionOf_eq_some_iff : (sectionOf t).get? name = some v ↔ FileSets t name v := by
  have hname : tableName = "cogmetrics" := rfl
  unfold sectionOf
  split
  · next own hown =>
    constructor
    · exact .own hown
    · intro h
      cases h with
      | own h hv =>
        cases hown.symm.trans h
        exact hv
      | whole h => exact absurd hown (h own)
  · next hno =>
    constructor
    · exact .whole hno
    · intro h
      cases h with
      | own h => exact absurd h (hno _)
      | whole _ hv => exact hv

theorem nodup_keys_sectionOf (h : t.WellKeyed) : (sectionOf t).keys.Nodup := by
  unfold sectionOf
  split
  · next own hown => exact (Table.wellKeyed_iff.1 (h.get? hown)).1
  · exact (Table.wellKeyed_iff.1 h).1

/-! ## Overrides -/

/-- A switch is among the overrides and on. -/
def isOn (overrides : Table) (switch : String) : Bool := (overrides.get? switch).any Value.truthy

/-- **What overrides set**: what they are, unless they are nothing.  The switches are no settings themselves, and go
before a verbosity among the overrides, quiet before verbose. -/
inductive OverridesSet (overrides : Table) : String → Value → Prop where
  | quiet (h : isOn overrides "quiet" = true) : OverridesSet overrides "verbosity" (.str "quiet")
  | verbose (h : isOn overrides "verbose" = true) (hq : isOn overrides "quiet" = false) :
    OverridesSet overrides "verbosity" (.str "verbose")
  | plain {name : String} {v : Value} (h : overrides.get? name = some v) (hv : v ≠ .null)
      (hs : name ≠ "verbose" ∧ name ≠ "quiet")
      (hn : name = "verbosity" → isOn overrides "verbose" = false ∧ isOn overrides "quiet" = false) :
      OverridesSet overrides name v

theorem applySwitch_eq (switch word : String) (t : Table) : applySwitch switch word t =
    (if isOn t switch then t.put "verbosity" (.str word) else t).only (· != switch) := by
  unfold applySwitch
  split
  · next hnone =>
    have hoff : isOn t switch = false := by rw [isOn, hnone]; rfl
    have hall : ∀ e ∈ t, (e.1 != switch) = true := by
      intro e he
      have hne : e.1 ≠ switch := fun heq => Table.get?_eq_none_iff.1 hnone (List.mem_map.2 ⟨e, he, heq⟩)
      simpa using hne
    rw [hoff]
    exact (List.filter_eq_self.2 hall).symm
  · next w hw =>
    have hon : isOn t switch = w.truthy := by rw [isOn, hw]; rfl
    rw [hon]
    rfl

theorem nodup_keys_applySwitch (switch word : String) (hn : t.keys.Nodup) : (applySwitch switch word t).keys.Nodup := by
  rw [applySwitch_eq]
  refine Table.nodup_keys_filter ?_ _
  split
  · exact Table.nodup_keys_put hn
  · exact hn

theorem get?_applySwitch (switch word : String) : (applySwitch switch word t).get? name =
    if name = switch then none
    else if name = "verbosity" ∧ isOn t switch then some (.str word) else t.get? name := by
  rw [applySwitch_eq, Table.get?_only]
  by_cases hs : name = switch
  · simp [hs]
  · have hkeep : (name != switch) = true := by simpa using hs
    rw [if_pos hkeep, if_neg hs]
    by_cases hon : isOn t switch
    · rw [if_pos hon, Table.get?_put]
      simp [hon, eq_comm]
    · rw [if_neg hon, if_neg fun h => hon h.2]

theorem nodup_keys_overrideLayer (hn : overrides.keys.Nodup) : (overrideLayer overrides).keys.Nodup :=
  Table.nodup_keys_filter (nodup_keys_applySwitch _ _ (nodup_keys_applySwitch _ _ hn)) _

/-- What the switches leave of the overrides, and what they set. -/
theorem get?_switched :
    (applySwitch quietSwitch quietSwitch (applySwitch verboseSwitch verboseSwitch overrides)).get? name =
      if name = "quiet" ∨ name = "verbose" then none
      else if name = "verbosity" ∧ isOn overrides "quiet" then some (.str "quiet")
      else if name = "verbosity" ∧ isOn overrides "verbose" then some (.str "verbose")
      else overrides.get? name := by
  unfold quietSwitch verboseSwitch
  have hquiet : isOn (applySwitch "verbose" "verbose" overrides) "quiet" = isOn overrides "quiet" := by
    simp [isOn, get?_applySwitch]
  rw [get?_applySwitch, get?_applySwitch, hquiet]
  by_cases hq : name = "quiet"
  · simp [hq]
  · by_cases hv : name = "verbose"
    · simp [hv]
    · simp [hq, hv]

/-- The table of the overrides says what the overrides set. -/
theorem get?_overrideLayer_eq_some_iff (hn : overrides.keys.Nodup) :
    (overrideLayer overrides).get? name = some v ↔ OverridesSet overrides name v := by
  have hn' := nodup_keys_applySwitch quietSwitch quietSwitch (nodup_keys_applySwitch verboseSwitch verboseSwitch hn)
  rw [overrideLayer, Table.get?_filter hn', Option.filter_eq_some_iff, get?_switched]
  constructor
  · rintro ⟨h, hkept⟩
    have hv : v ≠ .null := by
      rintro rfl
      cases hkept
    split at h
    · cases h
    · next hs =>
      obtain ⟨hq, hs⟩ := not_or.1 hs
      split at h
      · next hon =>
        obtain ⟨rfl, hon⟩ := hon
        cases h
        exact .quiet hon
      · next hquiet =>
        split at h
        · next hon =>
          obtain ⟨rfl, hon⟩ := hon
          cases h
          exact .verbose hon (by simpa using hquiet)
        · next hverbose =>
          refine .plain h hv ⟨hs, hq⟩ fun hname => ?_
          simp only [hname, true_and, Bool.not_eq_true] at hquiet hverbose
          exact ⟨hverbose, hquiet⟩
  · intro h
    cases h with
    | quiet h => simp [h]
    | verbose h hq => simp [h, hq]
    | plain h hv hs hname =>
      have hquiet : ¬ (name = "verbosity" ∧ isOn overrides "quiet" = true) := by
        rintro ⟨hn, hon⟩
        exact absurd (hon.symm.trans (hname hn).2) (by decide)
      have hverbose : ¬ (name = "verbosity" ∧ isOn overrides "verbose" = true) := by
        rintro ⟨hn, hon⟩
        exact absurd (hon.symm.trans (hname hn).1) (by decide)
      rw [if_neg (not_or.2 ⟨hs.2, hs.1⟩), if_neg hquiet, if_neg hverbose]
      refine ⟨h, ?_⟩
      cases v with
      | null => exact absurd rfl hv
      | bool | int | float | str | moment | list | table => rfl

end Sources

end Cognitive
