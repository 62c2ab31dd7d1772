import Cognitive.Proofs.Outcome
import Cognitive.Proofs.Value.Table
import Cognitive.Toml.Document
/-!
# Documents of TOML set no key twice

A value is well keyed when no table at or below it has a key twice (`Value.WellKeyed`).  Scalars are, lists and written
tables are when what they hold is, and every change that a statement makes to the table of a document keeps this
(`Toml.wellKeyed_changeAt`).  So whatever is read is well keyed (`Toml.wellKeyed_readBytes`).
-/
namespace Cognitive

/-- No table at or below the value has a key twice. -/
inductive Value.WellKeyed : Value → Prop where
  | plain {v : Value} (h : Toml.isWhole v = false) : WellKeyed v
  | list {items : List Value} (h : ∀ v ∈ items, WellKeyed v) : WellKeyed (.list items)
  | table {entries : List (String × Value)} (hn : (Table.keys entries).Nodup) (h : ∀ e ∈ entries, WellKeyed e.2) :
    WellKeyed (.table entries)

def Table.WellKeyed (t : Table) : Prop := Value.WellKeyed (.table t)

namespace Table

variable {t : Table} {k : String} {v : Value}

theorem wellKeyed_iff : t.WellKeyed ↔ t.keys.Nodup ∧ ∀ e ∈ t, e.2.WellKeyed := by
  constructor
  · intro h
    cases h with
    | plain h => cases h
    | table hn h => exact ⟨hn, h⟩
  · rintro ⟨hn, h⟩
    exact .table hn h

theorem wellKeyed_nil : WellKeyed [] := .table List.nodup_nil fun _ he => nomatch he

theorem WellKeyed.put (ht : t.WellKeyed) (hv : v.WellKeyed) : (put k v t).WellKeyed := by
  obtain ⟨hn, ht⟩ := wellKeyed_iff.1 ht
  refine wellKeyed_iff.2 ⟨nodup_keys_put hn, fun e he => ?_⟩
  rcases mem_put he with rfl | he
  · exact hv
  · exact ht e he

theorem WellKeyed.get? (ht : t.WellKeyed) (h : t.get? k = some v) : v.WellKeyed :=
  (wellKeyed_iff.1 ht).2 _ (mem_of_get? h)

end Table

namespace Value

theorem wellKeyed_list_iff {items : List Value} : (Value.list items).WellKeyed ↔ ∀ v ∈ items, v.WellKeyed := by
  constructor
  · intro h
    cases h with
    | plain h => cases h
    | list h => exact h
  · exact .list

end Value

namespace Toml

open Outcome (bind_eq_ok_iff map_eq_ok_iff)

/-! ## Changes of a table -/

/-- **A change at a path keeps a table well keyed** if the change itself does. -/
theorem wellKeyed_changeAt {enterLists : Bool} {change : Table → Option Table}
    (hc : ∀ u u', u.WellKeyed → change u = some u' → u'.WellKeyed) : ∀ {path : List String} {t t' : Table},
    t.WellKeyed → changeAt enterLists path change t = some t' → t'.WellKeyed
  | [], t, t', ht, h => hc t t' ht h
  | k :: path, t, t', ht, h => by
    have hv : ((Table.get? t k).getD (.table [])).WellKeyed := by
      cases hg : Table.get? t k with
      | none => exact Table.wellKeyed_nil
      | some v => exact ht.get? hg
    rw [changeAt] at h
    split at h
    · next inner heq =>
      obtain ⟨new, hnew, rfl⟩ := Option.map_eq_some_iff.1 h
      rw [heq] at hv
      exact ht.put (wellKeyed_changeAt hc hv hnew)
    · next items heq =>
      rw [heq] at hv
      have hitems := Value.wellKeyed_list_iff.1 hv
      split at h
      · next inner hlast =>
        obtain ⟨new, hnew, rfl⟩ := Option.map_eq_some_iff.1 h
        have hinner : Table.WellKeyed inner := hitems _ (List.mem_of_getLast? hlast)
        refine ht.put (.list fun v hv => ?_)
        rcases List.mem_append.1 hv with hv | hv
        · exact hitems v ((List.dropLast_sublist items).subset hv)
        · rw [List.mem_singleton.1 hv]
          exact wellKeyed_changeAt hc hinner hnew
      · cases h
    · cases h

theorem wellKeyed_addNew {k : String} {v : Value} (hv : v.WellKeyed) {t t' : Table} (ht : t.WellKeyed)
    (h : addNew k v t = some t') : t'.WellKeyed := by
  unfold addNew at h
  split at h
  · cases h
  · cases h
    exact ht.put hv

theorem wellKeyed_appendTable {k : String} {t t' : Table} (ht : t.WellKeyed)
    (h : Draft.appendTable k t = some t') : t'.WellKeyed := by
  have hnew : Value.WellKeyed (.table []) := Table.wellKeyed_nil
  unfold Draft.appendTable at h
  split at h
  · cases h
    exact ht.put (.list fun v hv => List.mem_singleton.1 hv ▸ hnew)
  · next items hg =>
    cases h
    have hitems := Value.wellKeyed_list_iff.1 (ht.get? hg)
    refine ht.put (.list fun v hv => ?_)
    rcases List.mem_append.1 hv with hv | hv
    · exact hitems v hv
    · exact List.mem_singleton.1 hv ▸ hnew
  · cases h

theorem wellKeyed_addInline {draft draft' : Table × List (List String)} {path : List String} {v : Value}
    (hd : Table.WellKeyed draft.1) (hv : v.WellKeyed) (h : addInline draft path v = .ok draft') :
    Table.WellKeyed draft'.1 := by
  unfold addInline at h
  split at h
  · cases h
  · split at h
    · next t ht =>
      cases h
      exact wellKeyed_changeAt (fun _ _ => wellKeyed_addNew hv) hd ht
    · cases h

/-! ## Values -/

theorem isWhole_decimal {text rest : List Char} {v : Value} (h : decimal text = .ok (v, rest)) :
    isWhole v = false := by
  simp only [decimal] at h
  split at h
  · cases h
  · split at h
    · split at h
      · cases h
      · cases h
        rfl
    · cases h
      rfl

theorem isWhole_basedNumber? {text : List Char} {r : Value × List Char} (h : basedNumber? text = some r) :
    isWhole r.1 = false := by
  unfold basedNumber? at h
  split at h
  · simp only [Option.bind_eq_bind, Option.bind_eq_some_iff] at h
    obtain ⟨base, -, digits, -, h⟩ := h
    cases h
    rfl
  · cases h

theorem isWhole_named? {text : List Char} {r : Value × List Char} (h : named? text = some r) :
    isWhole r.1 = false := by
  simp only [named?] at h
  split at h
  · cases h
    rfl
  · obtain ⟨rest, -, rfl⟩ := Option.map_eq_some_iff.1 h
    rfl

/-- What stands for itself in a document is neither a list nor a table. -/
theorem isWhole_scalar {text rest : List Char} {v : Value} (h : scalar text = .ok (v, rest)) : isWhole v = false := by
  cases text with
  | nil => cases h
  | cons c text =>
    simp only [scalar] at h
    split at h
    · obtain ⟨r, -, hr⟩ := map_eq_ok_iff.1 h
      cases hr
      rfl
    · split at h
      · next r hr =>
        cases h
        rcases Option.or_eq_some_iff.1 hr with hr | ⟨-, hr⟩
        · rcases Option.or_eq_some_iff.1 hr with hr | ⟨-, hr⟩
          · obtain ⟨_, -, heq⟩ := Option.map_eq_some_iff.1 hr
            cases heq
            rfl
          · obtain ⟨_, -, heq⟩ := Option.map_eq_some_iff.1 hr
            cases heq
            rfl
        · rcases Option.or_eq_some_iff.1 hr with hr | ⟨-, hr⟩
          · obtain ⟨_, -, heq⟩ := Option.map_eq_some_iff.1 hr
            cases heq
            rfl
          · rcases Option.or_eq_some_iff.1 hr with hr | ⟨-, hr⟩
            · exact isWhole_basedNumber? hr
            · exact isWhole_named? hr
      · exact isWhole_decimal h

/-- Values, rests of lists and rests of written tables that are read with some fuel are well keyed. -/
structure ReadsWellKeyed (fuel : Nat) : Prop where
  value : ∀ {text rest v}, value fuel text = .ok (v, rest) → v.WellKeyed
  items : ∀ {done text rest v}, (∀ w ∈ done, w.WellKeyed) → items fuel done text = .ok (v, rest) → v.WellKeyed
  inlineEntries : ∀ {draft text rest v}, Table.WellKeyed draft.1 → inlineEntries fuel draft text = .ok (v, rest) →
    v.WellKeyed

namespace ReadsWellKeyed

variable {fuel : Nat} {text rest : List Char} {v : Value} (ih : ReadsWellKeyed fuel)
include ih

theorem value_succ (h : Toml.value (fuel + 1) text = .ok (v, rest)) : v.WellKeyed := by
  unfold Toml.value at h
  split at h
  · obtain ⟨after, -, h⟩ := bind_eq_ok_iff.1 h
    split at h
    · cases h
      exact .list fun _ hv => nomatch hv
    · exact ih.items (List.forall_mem_nil _) h
  · split at h
    · cases h
      exact Table.wellKeyed_nil
    · exact ih.inlineEntries Table.wellKeyed_nil h
  · exact .plain (isWhole_scalar h)

theorem items_succ {done : List Value} (hd : ∀ w ∈ done, w.WellKeyed)
    (h : Toml.items (fuel + 1) done text = .ok (v, rest)) : v.WellKeyed := by
  rw [Toml.items] at h
  obtain ⟨⟨w, afterItem⟩, hw, h⟩ := bind_eq_ok_iff.1 h
  have hdone : ∀ u ∈ w :: done, u.WellKeyed := List.forall_mem_cons.2 ⟨ih.value hw, hd⟩
  have hlist : (Value.list (w :: done).reverse).WellKeyed := .list fun u hu => hdone u (List.mem_reverse.1 hu)
  obtain ⟨between, -, h⟩ := bind_eq_ok_iff.1 h
  split at h
  · cases h
    exact hlist
  · obtain ⟨next, -, h⟩ := bind_eq_ok_iff.1 h
    split at h
    · cases h
      exact hlist
    · exact ih.items hdone h
  · cases h

theorem inlineEntries_succ {draft : Table × List (List String)} (hd : Table.WellKeyed draft.1)
    (h : Toml.inlineEntries (fuel + 1) draft text = .ok (v, rest)) : v.WellKeyed := by
  rw [Toml.inlineEntries] at h
  obtain ⟨⟨path, afterKey⟩, -, h⟩ := bind_eq_ok_iff.1 h
  simp only at h
  split at h
  · obtain ⟨⟨w, afterValue⟩, hw, h⟩ := bind_eq_ok_iff.1 h
    obtain ⟨draft', hdraft, h⟩ := bind_eq_ok_iff.1 h
    have hd' := wellKeyed_addInline hd (ih.value hw) hdraft
    split at h
    · cases h
      exact hd'
    · exact ih.inlineEntries hd' h
    · cases h
  · cases h

end ReadsWellKeyed

/-- **What is read as a value is well keyed.** -/
theorem readsWellKeyed : ∀ fuel : Nat, ReadsWellKeyed fuel
  | 0 => by
    constructor
    · intro text rest v h
      rw [value] at h
      cases h
    · intro done text rest v _ h
      rw [items] at h
      cases h
    · intro draft text rest v _ h
      rw [inlineEntries] at h
      cases h
  | fuel + 1 =>
    have ih := readsWellKeyed fuel
    ⟨ih.value_succ, ih.items_succ, ih.inlineEntries_succ⟩

/-! ## Documents -/

variable {d d' : Draft} {text rest : List Char}

theorem wellKeyed_openTable {path : List String} (hd : d.table.WellKeyed) (h : d.openTable path = .ok d') :
    d'.table.WellKeyed := by
  unfold Draft.openTable at h
  split at h
  · cases h
  · split at h
    · next t ht =>
      cases h
      exact wellKeyed_changeAt (fun u u' hu hsome => Option.some.inj hsome ▸ hu) hd ht
    · cases h

theorem wellKeyed_openItem {path : List String} (hd : d.table.WellKeyed) (h : d.openItem path = .ok d') :
    d'.table.WellKeyed := by
  unfold Draft.openItem at h
  split at h
  · cases h
  · simp only at h
    split at h
    · next t ht =>
      cases h
      exact wellKeyed_changeAt (fun _ _ => wellKeyed_appendTable) hd ht
    · cases h

theorem wellKeyed_addEntry {path : List String} {v : Value} (hd : d.table.WellKeyed) (hv : v.WellKeyed)
    (h : d.addEntry path v = .ok d') : d'.table.WellKeyed := by
  simp only [Draft.addEntry] at h
  split at h
  · cases h
  · split at h
    · next t ht =>
      cases h
      exact wellKeyed_changeAt (fun _ _ => wellKeyed_addNew hv) hd ht
    · cases h

theorem wellKeyed_headerStatement (hd : d.table.WellKeyed) (h : headerStatement d text = .ok (d', rest)) :
    d'.table.WellKeyed := by
  unfold headerStatement at h
  split at h
  · obtain ⟨⟨path, afterKey⟩, -, h⟩ := bind_eq_ok_iff.1 h
    obtain ⟨opened, hopened, h⟩ := bind_eq_ok_iff.1 h
    split at h
    · cases h
      exact wellKeyed_openItem (d := d.endSection) hd hopened
    · cases h
  · obtain ⟨⟨path, afterKey⟩, -, h⟩ := bind_eq_ok_iff.1 h
    obtain ⟨opened, hopened, h⟩ := bind_eq_ok_iff.1 h
    split at h
    · cases h
      exact wellKeyed_openTable (d := d.endSection) hd hopened
    · cases h

theorem wellKeyed_entryStatement (hd : d.table.WellKeyed) (h : entryStatement d text = .ok (d', rest)) :
    d'.table.WellKeyed := by
  unfold entryStatement at h
  obtain ⟨⟨path, afterKey⟩, -, h⟩ := bind_eq_ok_iff.1 h
  simp only at h
  split at h
  · obtain ⟨⟨v, afterValue⟩, hv, h⟩ := bind_eq_ok_iff.1 h
    obtain ⟨added, hadded, h⟩ := bind_eq_ok_iff.1 h
    cases h
    exact wellKeyed_addEntry hd ((readsWellKeyed _).value hv) hadded
  · cases h

/-- **A statement keeps the table of a document well keyed.** -/
theorem wellKeyed_statement (hd : d.table.WellKeyed) (h : statement d text = .ok (d', rest)) :
    d'.table.WellKeyed := by
  unfold statement at h
  split at h
  · exact wellKeyed_headerStatement hd h
  · cases h
    exact hd
  · cases h
    exact hd
  · cases h
    exact hd
  · exact wellKeyed_entryStatement hd h

theorem wellKeyed_statements : ∀ (fuel : Nat) {d d' : Draft} {text : List Char}, d.table.WellKeyed →
    statements fuel d text = .ok d' → d'.table.WellKeyed
  | 0, d, d', text, _, h => by
    rw [statements] at h
    cases h
  | fuel + 1, d, d', text, hd, h => by
    rw [statements] at h
    obtain ⟨⟨next, rest⟩, hnext, h⟩ := bind_eq_ok_iff.1 h
    obtain ⟨line, -, h⟩ := bind_eq_ok_iff.1 h
    have hkept := wellKeyed_statement hd hnext
    split at h
    · cases h
      exact hkept
    · exact wellKeyed_statements fuel hkept h

/-- **No table of a document has a key twice.** -/
theorem wellKeyed_readBytes {bytes : ByteArray} {t : Table} (h : readBytes bytes = .ok t) : t.WellKeyed := by
  unfold readBytes at h
  split at h
  · obtain ⟨d, hd, rfl⟩ := map_eq_ok_iff.1 h
    exact wellKeyed_statements _ Table.wellKeyed_nil hd
  · cases h

end Toml
end Cognitive
