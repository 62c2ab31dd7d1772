import Cognitive.Proofs.Batch.Clash
import Cognitive.Proofs.Settings.Typed
/-!
# How deep a selection goes

A selection enters the folders of a tree, one inside the other, as long as there is room for them.  A folder is entered
only for what it holds, so by settings of the declared kinds a selection runs out of room exactly when a file lies so
deep, in folders none of which is passed over before there is no more room (`FileTree.select_cases`).  Of an archive
this is said of the paths of its files, and so of the archive in any order (`Archive.RunsOut`).
-/
namespace Cognitive

namespace Settings

variable {s : Settings} {room : Nat} {name : String} {rest : List String}

/-- **A visit runs out of room on the way to a path**: there are more folders on the way than it may enter, and those up
to the first that it may not are none to be passed over. -/
def RunsOut (s : Settings) (room : Nat) (path : List String) : Prop :=
  room < path.dropLast.length ∧ ∀ f ∈ path.dropLast.take (room + 1), f ≠ "__MACOSX" ∧ ¬ s.IgnoresFolder f

theorem not_runsOut_singleton : ¬ s.RunsOut room [name] := fun h => absurd h.1 (Nat.not_lt_zero room)

theorem runsOut_cons (hr : rest ≠ []) : s.RunsOut room (name :: rest) ↔
    (name ≠ "__MACOSX" ∧ ¬ s.IgnoresFolder name) ∧ (room = 0 ∨ s.RunsOut (room - 1) rest) := by
  rw [RunsOut, List.dropLast_cons_of_ne_nil hr, List.length_cons, List.take_succ_cons, List.forall_mem_cons]
  cases room with
  | zero => simp
  | succ room =>
    rw [Nat.add_lt_add_iff_right, and_left_comm]
    simp [RunsOut]

end Settings

namespace FileTree

variable {α : Type} {s : Settings}

theorem files_ne_nil {t : FileTree α} (hne : t ≠ .empty) (ht : t.IsOccupied) : t.files ≠ [] := by
  induction t using cons_induction with
  | empty => exact absurd rfl hne
  | cons n i t ih _ =>
    obtain ⟨hi, -⟩ := isOccupied_cons.1 ht
    have hitem : i.files ≠ [] := by
      cases i with
      | file a => exact List.cons_ne_nil _ _
      | folder inside => exact ih inside rfl hi.1 hi.2
    rw [files_cons]
    simp [hitem]

/-- A selection of a folder's inside goes on, or runs out of room for it. -/
theorem exists_runsOut_folder {room : Nat} {n : String} {inside t : FileTree α} {b : Bool}
    (hb : b = true ↔ n = "__MACOSX" ∨ s.IgnoresFolder n) (ht : (folder n inside t).IsOccupied) :
    (∃ e ∈ (folder n inside t).files, s.RunsOut room e.1) ↔
      (b = false ∧ (room = 0 ∨ ∃ e ∈ inside.files, s.RunsOut (room - 1) e.1)) ∨ ∃ e ∈ t.files, s.RunsOut room e.1 := by
  have hcons : ∀ e ∈ inside.files, s.RunsOut room (n :: e.1) ↔
      b = false ∧ (room = 0 ∨ s.RunsOut (room - 1) e.1) := by
    intro e he
    obtain ⟨m, -, rest, hm⟩ := exists_name_of_mem_files he
    rw [Settings.runsOut_cons (by simp [hm]), ← not_or, ← hb, Bool.not_eq_true]
  obtain ⟨first, hfirst⟩ := List.exists_mem_of_ne_nil _ (files_ne_nil ht.1 ht.2.1)
  have hinside : (∃ e ∈ inside.files, s.RunsOut room (n :: e.1)) ↔
      b = false ∧ (room = 0 ∨ ∃ e ∈ inside.files, s.RunsOut (room - 1) e.1) := by
    constructor
    · rintro ⟨e, he, h⟩
      obtain ⟨hentered, h⟩ := (hcons e he).1 h
      exact ⟨hentered, h.imp_right fun h => ⟨e, he, h⟩⟩
    · rintro ⟨hentered, h | ⟨e, he, h⟩⟩
      · exact ⟨first, hfirst, (hcons first hfirst).2 ⟨hentered, .inl h⟩⟩
      · exact ⟨e, he, (hcons e he).2 ⟨hentered, .inr h⟩⟩
  rw [← hinside]
  simp [files, or_and_right, exists_or]

/-- **A selection by settings of the declared kinds breaks off only when it runs out of room**, which is when a file
lies too deep. -/
theorem select_cases (hs : s.IsTyped) (room : Nat) (lead : String) {t : FileTree α} (ht : t.IsOccupied) :
    ((∃ e ∈ t.files, s.RunsOut room e.1) ∧ t.select s room lead = breakDown .tooDeep) ∨
      (¬ ∃ e ∈ t.files, s.RunsOut room e.1) ∧ ∃ selected, t.select s room lead = .ok selected := by
  induction t generalizing room lead with
  | empty => exact .inr ⟨by simp [files], [], rfl⟩
  | file name a rest ih =>
    obtain ⟨b, hb⟩ := Settings.exists_isSource hs name
    have hfiles : (∃ e ∈ (file name a rest).files, s.RunsOut room e.1) ↔ ∃ e ∈ rest.files, s.RunsOut room e.1 := by
      simp [files, Settings.not_runsOut_singleton]
    rw [hfiles]
    rcases ih room lead ht with ⟨hout, h⟩ | ⟨hin, later, h⟩
    · exact .inl ⟨hout, by simp only [select, hb, h, breakDown, bind, Except.bind]⟩
    · exact .inr ⟨hin, _, Outcome.bind_eq_ok_iff.2 ⟨b, hb, Outcome.bind_eq_ok_iff.2 ⟨later, h, rfl⟩⟩⟩
  | folder name inside rest ihi ihr =>
    obtain ⟨b, hb⟩ := Settings.exists_isPassedOver hs name
    rw [exists_runsOut_folder (Settings.isPassedOver_eq_ok hb) ht]
    generalize hhere : (if b then .ok [] else if room = 0 then breakDown .tooDeep
      else select s (room - 1) (lead ++ name ++ "/") inside : Outcome (List (String × α))) = here
    have hfolder : ((b = false ∧ (room = 0 ∨ ∃ e ∈ inside.files, s.RunsOut (room - 1) e.1)) ∧
        here = breakDown .tooDeep) ∨
        ¬ (b = false ∧ (room = 0 ∨ ∃ e ∈ inside.files, s.RunsOut (room - 1) e.1)) ∧ ∃ l, here = .ok l := by
      subst hhere
      cases b with
      | true => exact .inr ⟨by simp, [], rfl⟩
      | false =>
        by_cases hroom : room = 0
        · exact .inl ⟨⟨rfl, .inl hroom⟩, by simp [hroom]⟩
        · simpa [hroom] using ihi (room - 1) (lead ++ name ++ "/") ht.2.1
    have hselect : (folder name inside rest).select s room lead =
        here >>= fun l => rest.select s room lead >>= fun later => .ok (l ++ later) := by
      simp only [select, hb, ← hhere, bind, Except.bind]
      rfl
    rw [hselect]
    rcases hfolder with ⟨hout, rfl⟩ | ⟨hin, l, rfl⟩
    · exact .inl ⟨.inl hout, rfl⟩
    · rcases ihr room lead ht.2.2 with ⟨hout, h⟩ | ⟨hin', later, h⟩
      · exact .inl ⟨.inr hout, Outcome.bind_eq_error_iff.2 (.inr ⟨l, rfl, Outcome.bind_eq_error_iff.2 (.inl h)⟩)⟩
      · exact .inr ⟨not_or.2 ⟨hin, hin'⟩, _,
          Outcome.bind_eq_ok_iff.2 ⟨l, rfl, Outcome.bind_eq_ok_iff.2 ⟨later, h, rfl⟩⟩⟩

end FileTree

namespace Archive

variable {s : Settings} {room : Nat} {offers offers' : List Offer}

/-- **A visit of the files of an archive runs out of room** on the way to one of them, selected or not. -/
def RunsOut (s : Settings) (room : Nat) (offers : List Offer) : Prop :=
  ∃ o ∈ offers, o.isFolder = false ∧ s.RunsOut room o.path

theorem RunsOut.perm (h : offers.Perm offers') (ho : RunsOut s room offers) : RunsOut s room offers' := by
  obtain ⟨o, hm, hout⟩ := ho
  exact ⟨o, h.mem_iff.1 hm, hout⟩

theorem runsOut_treeOf_iff {t : FileTree Offer} (ht : treeOf offers = .ok t) :
    (∃ e ∈ t.files, s.RunsOut room e.1) ↔ RunsOut s room offers := by
  have hfile : ∀ {p o}, (p, o) ∈ t.files ↔ lastAt? offers p = some o := by
    intro p o
    rw [FileTree.mem_files (isRising_treeOf ht), file?_treeOf ht]
  constructor
  · rintro ⟨⟨p, o⟩, he, hout⟩
    obtain ⟨o', ho', hf', rfl⟩ := isSome_lastAt?.1 ⟨o, hfile.1 he⟩
    exact ⟨o', ho', hf', hout⟩
  · rintro ⟨o, ho, hf, hout⟩
    obtain ⟨last, hlast⟩ := isSome_lastAt?.2 ⟨o, ho, hf, rfl⟩
    exact ⟨(o.path, last), hfile.2 hlast, hout⟩

end Archive
end Cognitive
