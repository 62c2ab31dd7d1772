import Cognitive.Proofs.Batch.Depth
import Cognitive.Proofs.Batch.Selected
import Cognitive.Proofs.Zip.Content
/-!
# When an archive is refused

An archive is read exactly when its size keeps the limit, its files fit into one tree that there is room to visit, and
the selected ones keep the limits and can be read (`Archive.exists_read_iff`).  Everything else is a refusal of the class
of archives, but for what breaks off (`Archive.BreaksOff`): an archive that cannot be opened for another reason than
being none, a file without a name, too many folders inside each other, and a selected file whose name or place in the
archive or whose packed data make no sense.  Names and clashes are checked of all files, the limits of the selected ones
(`Archive.IsUnacceptable`).
-/
namespace Cognitive

namespace Zip

/-- What an archive breaks off with that cannot be opened, where it is not refused as none. -/
def OpenFault.breakdown? : OpenFault → Option Breakdown
  | .nameEncoding => some .badEncoding
  | .tooNew version => some (.archiveTooNew version)
  | _ => none

/-- What an archive breaks off with that a selected file cannot be read from, where it is not refused. -/
def ReadFault.breakdown? : ReadFault → Option Breakdown
  | .nameEncoding => some .badEncoding
  | .beforeStart position => some (.positionBeforeStart position)
  | .outOfRange => some .positionTooLarge
  | .bzip2 => some .bzip2
  | .lzma why => some (.lzma why)
  | _ => none

end Zip

namespace Archive

variable {s : Settings} {room : Nat} {offers : List Offer} {limit : Int}

/-! ## Reading the selected files -/

theorem readFailure_eq_broke_iff {name : String} {f : Zip.ReadFault} {k : Breakdown} :
    readFailure name f = .broke k ↔ f.breakdown? = some k := by
  cases f <;> simp [readFailure, Zip.ReadFault.breakdown?]

theorem readFailure_eq_refused {name : String} {f : Zip.ReadFault} {r : Refusal} (h : readFailure name f = .refused r) :
    r.cls = .invalidArchive := by
  cases f <;> simp only [readFailure, Failure.refused.injEq, reduceCtorEq] at h <;> rw [← h] <;> rfl

theorem entryOf_eq_error_iff {file : String × Offer} {e : Failure} :
    entryOf file = .error e ↔ ∃ f, file.2.content.get = .error f ∧ readFailure file.2.name f = e := by
  unfold entryOf
  cases file.2.content.get <;> simp

theorem exists_entryOf_iff {file : String × Offer} :
    (∃ e, entryOf file = .ok e) ↔ ∃ bytes, file.2.content.get = .ok bytes := by
  unfold entryOf
  cases file.2.content.get <;> simp

theorem faultAt?_eq_some_iff {p : FilePath} {o : Offer} {f : Zip.ReadFault} (h : lastAt? offers p = some o) :
    faultAt? offers p = some f ↔ o.content.get = .error f := by
  rw [faultAt?, h, Option.bind_some]
  cases o.content.get <;> simp

theorem faultAt?_eq_none_iff {p : FilePath} {o : Offer} (h : lastAt? offers p = some o) :
    faultAt? offers p = none ↔ ∃ bytes, o.content.get = .ok bytes := by
  rw [faultAt?, h, Option.bind_some]
  cases o.content.get <;> simp

/-- The fault is that of the first selected path whose file cannot be read. -/
def IsFirstFault (s : Settings) (offers : List Offer) (f : Zip.ReadFault) : Prop :=
  ∃ p ∈ selectedPaths s offers, faultAt? offers p = some f ∧
    ∀ q ∈ selectedPaths s offers, q < p → faultAt? offers q = none

noncomputable def entriesOf (s : Settings) (t : FileTree Offer) : Outcome (List Entry) :=
  ((t.selected s).map fun e => (Text.join "/" e.1, e.2)).mapM entryOf

section Tree

variable {t : FileTree Offer} (ht : treeOf offers = .ok t)
include ht

theorem entriesOf_eq_error_iff {e : Failure} : entriesOf s t = .error e ↔
    ∃ before a after f, t.selected s = before ++ a :: after ∧ (∀ b ∈ before, faultAt? offers b.1 = none) ∧
      faultAt? offers a.1 = some f ∧ readFailure a.2.name f = e := by
  have hlast : ∀ {a}, a ∈ t.selected s → lastAt? offers a.1 = some a.2 := fun h => ((mem_selected_treeOf ht).1 h).2
  unfold entriesOf
  rw [Outcome.mapM_eq_error_iff]
  constructor
  · rintro ⟨before', a', after', h, hb, ha⟩
    obtain ⟨before, later, hsplit, rfl, hl⟩ := List.map_eq_append_iff.1 h
    obtain ⟨a, after, rfl, rfl, rfl⟩ := List.map_eq_cons_iff.1 hl
    obtain ⟨f, hf, he⟩ := entryOf_eq_error_iff.1 ha
    refine ⟨before, a, after, f, hsplit, fun b hbm => ?_, ?_, he⟩
    · have hmem : b ∈ t.selected s := hsplit ▸ List.mem_append_left _ hbm
      exact (faultAt?_eq_none_iff (hlast hmem)).2 (exists_entryOf_iff.1 (hb _ (List.mem_map_of_mem hbm)))
    · have hmem : a ∈ t.selected s := hsplit ▸ List.mem_append_cons_self
      exact (faultAt?_eq_some_iff (hlast hmem)).2 hf
  · rintro ⟨before, a, after, f, hsplit, hb, hf, he⟩
    refine ⟨before.map fun e => (Text.join "/" e.1, e.2), (Text.join "/" a.1, a.2),
      after.map fun e => (Text.join "/" e.1, e.2), by rw [hsplit, List.map_append, List.map_cons], ?_, ?_⟩
    · intro b hbm
      obtain ⟨c, hc, rfl⟩ := List.mem_map.1 hbm
      have hmem : c ∈ t.selected s := hsplit ▸ List.mem_append_left _ hc
      exact exists_entryOf_iff.2 ((faultAt?_eq_none_iff (hlast hmem)).1 (hb c hc))
    · have hmem : a ∈ t.selected s := hsplit ▸ List.mem_append_cons_self
      exact entryOf_eq_error_iff.2 ⟨f, (faultAt?_eq_some_iff (hlast hmem)).1 hf, he⟩

/-- **The selected files break off at the first that cannot be read**, if its fault is one to break off at. -/
theorem entriesOf_eq_broke_iff {k : Breakdown} :
    entriesOf s t = .error (.broke k) ↔ ∃ f, IsFirstFault s offers f ∧ f.breakdown? = some k := by
  rw [entriesOf_eq_error_iff ht]
  constructor
  · rintro ⟨before, a, after, f, hsplit, hb, hf, he⟩
    have hmem : a ∈ t.selected s := hsplit ▸ List.mem_append_cons_self
    refine ⟨f, ⟨a.1, ((mem_selected_treeOf ht).1 hmem).1, hf, fun q hq hlt => ?_⟩, readFailure_eq_broke_iff.1 he⟩
    obtain ⟨o, ho, -⟩ := exists_mem_selected ht hq
    -- what comes before in the order of paths stands before in the list
    have hrising := selected_rising (s := s) ht
    rw [hsplit] at ho hrising
    rcases List.mem_append.1 ho with hm | hm
    · exact hb (q, o) hm
    · rcases List.mem_cons.1 hm with rfl | hm
      · exact absurd hlt (List.lt_irrefl q)
      · have hgt := (List.pairwise_cons.1 (List.pairwise_append.1 hrising).2.1).1 (q, o) hm
        exact absurd (List.lt_trans hlt hgt) (List.lt_irrefl q)
  · rintro ⟨f, ⟨p, hp, hf, hfirst⟩, hk⟩
    obtain ⟨o, ho, -⟩ := exists_mem_selected ht hp
    obtain ⟨before, after, hsplit⟩ := List.append_of_mem ho
    refine ⟨before, (p, o), after, f, hsplit, fun b hb => ?_, hf, readFailure_eq_broke_iff.2 hk⟩
    have hmem : b ∈ t.selected s := hsplit ▸ List.mem_append_left _ hb
    have hrising := selected_rising (s := s) ht
    rw [hsplit] at hrising
    exact hfirst b.1 ((mem_selected_treeOf ht).1 hmem).1
      ((List.pairwise_append.1 hrising).2.2 b hb (p, o) List.mem_cons_self)

theorem entriesOf_eq_refused {r : Refusal} (h : entriesOf s t = .error (.refused r)) : r.cls = .invalidArchive := by
  obtain ⟨-, a, -, f, -, -, -, he⟩ := (entriesOf_eq_error_iff ht).1 h
  exact readFailure_eq_refused he

theorem exists_entriesOf_iff :
    (∃ entries, entriesOf s t = .ok entries) ↔ ∀ p ∈ selectedPaths s offers, faultAt? offers p = none := by
  constructor
  · rintro ⟨entries, h⟩ p hp
    obtain ⟨o, ho, hl⟩ := exists_mem_selected ht hp
    have he := Outcome.exists_eq_ok_of_mapM h (List.mem_map_of_mem ho)
    exact (faultAt?_eq_none_iff hl).2 (exists_entryOf_iff.1 he)
  · intro h
    refine Outcome.exists_mapM_eq_ok fun file hfile => ?_
    obtain ⟨e, he, rfl⟩ := List.mem_map.1 hfile
    obtain ⟨hp, hl⟩ := (mem_selected_treeOf ht).1 he
    exact exists_entryOf_iff.2 ((faultAt?_eq_none_iff hl).1 (h e.1 hp))

end Tree

/-! ## The bundle -/

/-- The selected files keep the limits, in their number and in their sizes. -/
structure KeepsLimits (s : Settings) (limit : Int) (offers : List Offer) : Prop where
  count : s.tooManyFiles (selectedPaths s offers).card = false
  size : ((∑ p ∈ selectedPaths s offers, sizeAt offers p : Nat) : Int) ≤ limit

/-- **The files of an archive are accepted**: they fit into one tree that can be visited, and the selected ones keep the
limits and can be read. -/
structure IsAccepted (s : Settings) (room : Nat) (limit : Int) (offers : List Offer) : Prop
    extends KeepsLimits s limit offers where
  fits : Fits offers
  shallow : ¬ RunsOut s room offers
  readable : ∀ p ∈ selectedPaths s offers, faultAt? offers p = none

section Typed

variable (hs : s.IsTyped) (hl : s.archiveLimit = .ok limit)
include hs hl

omit hl in
/-- The selection from the tree of an archive runs out of room, or gives as many files, and as much, as the paths say. -/
theorem select_cases (room : Nat) {t : FileTree Offer} (ht : treeOf offers = .ok t) :
    (RunsOut s room offers ∧ t.select s room "" = breakDown .tooDeep) ∨
      ¬ RunsOut s room offers ∧ ∃ selected, t.select s room "" = .ok selected ∧
        selected.mapM entryOf = entriesOf s t ∧ selected.length = (selectedPaths s offers).card ∧
        (selected.map (·.2.size)).foldr (· + ·) 0 = ∑ p ∈ selectedPaths s offers, sizeAt offers p := by
  rw [← runsOut_treeOf_iff ht]
  rcases FileTree.select_cases hs room "" (isOccupied_treeOf ht) with ⟨hout, h⟩ | ⟨hin, selected, hsel⟩
  · exact .inl ⟨hout, h⟩
  · have heq := FileTree.select_eq_ok hsel
    simp only [String.empty_append] at heq
    refine .inr ⟨hin, selected, hsel, by rw [heq, entriesOf], ?_, ?_⟩
    · rw [heq, List.length_map, length_selected ht]
    · rw [heq, List.map_map, ← sum_selected ht]
      rfl

omit hl in
/-- **Too many folders inside each other end the reading** as soon as all files are in their place, before any limit of
theirs is looked at. -/
theorem bundleOf_eq_tooDeep {t : FileTree Offer} (ht : treeOf offers = .ok t) (hout : RunsOut s room offers) :
    bundleOf s room offers = breakDown .tooDeep := by
  rcases select_cases hs room ht with ⟨-, h⟩ | ⟨hin, -⟩
  · simp only [bundleOf, ht, h, breakDown, bind, Except.bind]
  · exact absurd hout hin

/-- The refusal of an archive with too many source files. -/
def overflow (s : Settings) (count : Nat) : Refusal :=
  .invalidArchive ("archive holds " ++ toString count ++ " source files, limit is " ++ (s .maxFiles).text) none

omit hl in
theorem bundleOf_eq_overflow {t : FileTree Offer} (ht : treeOf offers = .ok t) (hin : ¬ RunsOut s room offers)
    (hcount : s.tooManyFiles (selectedPaths s offers).card = true) :
    bundleOf s room offers = refuse (overflow s (selectedPaths s offers).card) := by
  obtain ⟨-, selected, hsel, -, hlength, -⟩ := (select_cases hs room ht).resolve_left fun h => hin h.1
  unfold bundleOf
  rw [ht]
  simp only [bind, Except.bind, hsel, hlength, hcount]
  rfl

/-- **What the files of an archive come to.** -/
inductive Ends (s : Settings) (room : Nat) (limit : Int) (offers : List Offer) : Outcome Bundle → Prop where
  /-- They do not fit, and the first that does not says how. -/
  | misplaced {e : Failure} (hfits : ¬ Fits offers) (ht : treeOf offers = .error e) : Ends s room limit offers (.error e)
  | tooDeep (hfits : Fits offers) (hout : RunsOut s room offers) : Ends s room limit offers (breakDown .tooDeep)
  | overLimit {reason : String} (hfits : Fits offers) (hin : ¬ RunsOut s room offers)
      (hk : ¬ KeepsLimits s limit offers) :
    Ends s room limit offers (refuse (.invalidArchive reason none))
  /-- They are read. -/
  | entries {t : FileTree Offer} (hfits : Fits offers) (hin : ¬ RunsOut s room offers) (hk : KeepsLimits s limit offers)
      (ht : treeOf offers = .ok t) :
    Ends s room limit offers ((entriesOf s t).map fun sources => ⟨sources, namesOf offers⟩)

theorem ends_bundleOf (room : Nat) (offers : List Offer) : Ends s room limit offers (bundleOf s room offers) := by
  cases ht : treeOf offers with
  | error e =>
    have hfits : ¬ Fits offers := by
      rw [← exists_treeOf_iff, ht]
      simp
    have hbundle : bundleOf s room offers = .error e := by
      rw [bundleOf, ht]
      rfl
    rw [hbundle]
    exact .misplaced hfits ht
  | ok t =>
    have hfits := exists_treeOf_iff.1 ⟨t, ht⟩
    rcases select_cases hs room ht with ⟨hout, -⟩ | ⟨hin, selected, hsel, hentries, hlength, hsum⟩
    · rw [bundleOf_eq_tooDeep hs ht hout]
      exact .tooDeep hfits hout
    · cases hcount : s.tooManyFiles (selectedPaths s offers).card with
      | true =>
        rw [bundleOf_eq_overflow hs ht hin hcount]
        exact .overLimit hfits hin fun hk => nomatch hcount.symm.trans hk.count
      | false =>
        by_cases hsize : ((∑ p ∈ selectedPaths s offers, sizeAt offers p : Nat) : Int) ≤ limit
        · have hbundle : bundleOf s room offers = (entriesOf s t).map fun sources => ⟨sources, namesOf offers⟩ := by
            unfold bundleOf
            rw [ht, ← hentries]
            simp only [bind, Except.bind, hsel, hl, hlength, hsum, hcount]
            rw [Bool.not_false, decide_eq_true hsize]
            rfl
          rw [hbundle]
          exact .entries hfits hin ⟨hcount, hsize⟩ ht
        · obtain ⟨reason, hbundle⟩ : ∃ reason, bundleOf s room offers = refuse (.invalidArchive reason none) := by
            unfold bundleOf
            rw [ht]
            simp only [bind, Except.bind, hsel, hl, hlength, hsum, hcount]
            rw [Bool.not_false, decide_eq_false hsize]
            exact ⟨_, rfl⟩
          rw [hbundle]
          exact .overLimit hfits hin fun hk => hsize hk.size

theorem exists_bundleOf_iff : (∃ b, bundleOf s room offers = .ok b) ↔ IsAccepted s room limit offers := by
  have h := ends_bundleOf hs hl room offers
  generalize bundleOf s room offers = outcome at h
  cases h with
  | misplaced hfits => exact iff_of_false (fun ⟨_, hb⟩ => nomatch hb) fun ha => hfits ha.fits
  | tooDeep _ hout => exact iff_of_false (fun ⟨_, hb⟩ => nomatch hb) fun ha => ha.shallow hout
  | overLimit _ _ hk => exact iff_of_false (fun ⟨_, hb⟩ => nomatch hb) fun ha => hk ha.toKeepsLimits
  | @entries t hfits hin hk ht =>
    have hentries : (∃ b, (entriesOf s t).map (fun sources => (⟨sources, namesOf offers⟩ : Bundle)) = .ok b) ↔
        ∃ entries, entriesOf s t = .ok entries := by
      cases entriesOf s t <;> simp [Except.map]
    rw [hentries, exists_entriesOf_iff ht]
    exact ⟨fun hr => ⟨hk, hfits, hin, hr⟩, fun ha => ha.readable⟩

theorem bundleOf_eq_refused {r : Refusal} (h : bundleOf s room offers = .error (.refused r)) :
    r.cls = .invalidArchive := by
  have hends := ends_bundleOf hs hl room offers
  rw [h] at hends
  generalize ho : (.error (.refused r) : Outcome Bundle) = outcome at hends
  cases hends with
  | misplaced _ ht =>
    cases ho
    exact treeOf_eq_refused ht
  | tooDeep => cases ho
  | overLimit =>
    cases ho
    rfl
  | @entries t _ _ _ ht => exact entriesOf_eq_refused ht (Outcome.map_eq_error_iff.1 ho.symm)

theorem bundleOf_eq_broke_iff {k : Breakdown} : bundleOf s room offers = .error (.broke k) ↔
    treeOf offers = .error (.broke k) ∨ (Fits offers ∧ RunsOut s room offers ∧ k = .tooDeep) ∨
      (Fits offers ∧ ¬ RunsOut s room offers ∧ KeepsLimits s limit offers ∧
        ∃ f, IsFirstFault s offers f ∧ f.breakdown? = some k) := by
  have hfound : Fits offers → treeOf offers ≠ .error (.broke k) := by
    rw [← exists_treeOf_iff]
    rintro ⟨t, ht⟩ he
    exact nomatch ht.symm.trans he
  have h := ends_bundleOf hs hl room offers
  generalize bundleOf s room offers = outcome at h
  cases h with
  | misplaced hfits ht => simp [hfits, ht]
  | tooDeep hfits hout => simp [hfits, hout, hfound hfits, breakDown, eq_comm]
  | overLimit hfits hin hk => simp [hfits, hin, hk, hfound hfits, refuse]
  | entries hfits hin hk ht =>
    rw [Outcome.map_eq_error_iff, entriesOf_eq_broke_iff ht]
    simp [hfits, hin, hk, hfound hfits]

end Typed

/-! ## The whole archive -/

theorem openFailure_eq_broke_iff {f : Zip.OpenFault} {k : Breakdown} :
    openFailure f = .broke k ↔ f.breakdown? = some k := by
  cases f <;> simp [openFailure, Zip.OpenFault.breakdown?]

theorem openFailure_eq_refused {f : Zip.OpenFault} {r : Refusal} (h : openFailure f = .refused r) :
    r.cls = .invalidArchive := by
  cases f <;> simp only [openFailure, Failure.refused.injEq, reduceCtorEq] at h <;> rw [← h] <;> rfl

/-- **What an archive breaks off with** instead of being refused. -/
inductive BreaksOff (s : Settings) (room : Nat) (limit : Int) (bytes : ByteArray) : Breakdown → Prop where
  /-- It is an archive that cannot be opened. -/
  | opening {f : Zip.OpenFault} {k : Breakdown} (ho : offersOf bytes = .error f) (hk : f.breakdown? = some k) :
    BreaksOff s room limit bytes k
  /-- A file has no name, and those before it are in order. -/
  | unnamed {before after : List Offer} {o : Offer} (ho : offersOf bytes = .ok (before ++ o :: after))
      (hb : Fits before) (hn : o.name = "") : BreaksOff s room limit bytes .emptyEntryName
  /-- All is in order until there are too many folders inside each other. -/
  | deep {offers : List Offer} (ho : offersOf bytes = .ok offers) (hfits : Fits offers)
      (hout : RunsOut s room offers) : BreaksOff s room limit bytes .tooDeep
  /-- All is in order until a selected file is read. -/
  | reading {offers : List Offer} {f : Zip.ReadFault} {k : Breakdown} (ho : offersOf bytes = .ok offers)
      (hfits : Fits offers) (hin : ¬ RunsOut s room offers) (hkeeps : KeepsLimits s limit offers)
      (hf : IsFirstFault s offers f) (hk : f.breakdown? = some k) : BreaksOff s room limit bytes k

/-- With the files of an archive at hand, what it breaks off with is said of them. -/
theorem breaksOff_iff_of_opened {bytes : ByteArray} (ho : offersOf bytes = .ok offers) {k : Breakdown} :
    BreaksOff s room limit bytes k ↔
      (k = .emptyEntryName ∧ ∃ before o after, offers = before ++ o :: after ∧ Fits before ∧ o.name = "") ∨
      (Fits offers ∧ RunsOut s room offers ∧ k = .tooDeep) ∨
      (Fits offers ∧ ¬ RunsOut s room offers ∧ KeepsLimits s limit offers ∧
        ∃ f, IsFirstFault s offers f ∧ f.breakdown? = some k) := by
  constructor
  · intro hb
    cases hb with
    | opening ho' =>
      rw [ho] at ho'
      cases ho'
    | unnamed ho' hb hn =>
      rw [ho] at ho'
      cases ho'
      exact .inl ⟨rfl, _, _, _, rfl, hb, hn⟩
    | deep ho' hfits hout =>
      rw [ho] at ho'
      cases ho'
      exact .inr (.inl ⟨hfits, hout, rfl⟩)
    | reading ho' hfits hin hkeeps hf hk =>
      rw [ho] at ho'
      cases ho'
      exact .inr (.inr ⟨hfits, hin, hkeeps, _, hf, hk⟩)
  · rintro (⟨rfl, before, o, after, rfl, hb, hn⟩ | ⟨hfits, hout, rfl⟩ | ⟨hfits, hin, hkeeps, f, hf, hk⟩)
    · exact .unnamed ho hb hn
    · exact .deep ho hfits hout
    · exact .reading ho hfits hin hkeeps hf hk

section Typed

variable (hs : s.IsTyped) (hl : s.archiveLimit = .ok limit)
include hs hl

omit hs in
/-- What the bytes of an archive come to: too many are refused, else it is opened and its files are read. -/
theorem read_cases (room : Nat) (bytes : ByteArray) :
    (¬ (bytes.size : Int) ≤ limit ∧ ∃ reason, read s room bytes = refuse (.invalidArchive reason none)) ∨
      ((bytes.size : Int) ≤ limit ∧ ((∃ f, offersOf bytes = .error f ∧ read s room bytes = .error (openFailure f)) ∨
        ∃ offers, offersOf bytes = .ok offers ∧ read s room bytes = bundleOf s room offers)) := by
  unfold read
  simp only [bind, Except.bind, hl]
  by_cases hsize : (bytes.size : Int) ≤ limit
  · refine .inr ⟨hsize, ?_⟩
    rw [decide_eq_true hsize]
    cases offersOf bytes with
    | error f => exact .inl ⟨f, rfl, rfl⟩
    | ok offers => exact .inr ⟨offers, rfl, rfl⟩
  · rw [decide_eq_false hsize]
    exact .inl ⟨hsize, _, rfl⟩

theorem read_eq_refused {bytes : ByteArray} {r : Refusal} (h : read s room bytes = .error (.refused r)) :
    r.cls = .invalidArchive := by
  rcases read_cases hl room bytes with ⟨-, reason, h'⟩ | ⟨-, ⟨f, -, h'⟩ | ⟨offers, -, h'⟩⟩
  · rw [h'] at h
    cases h
    rfl
  · rw [h'] at h
    exact openFailure_eq_refused (Except.error.inj h)
  · rw [h'] at h
    exact bundleOf_eq_refused hs hl h

theorem read_eq_broke_iff {bytes : ByteArray} {k : Breakdown} :
    read s room bytes = .error (.broke k) ↔ (bytes.size : Int) ≤ limit ∧ BreaksOff s room limit bytes k := by
  rcases read_cases hl room bytes with ⟨hsize, reason, h⟩ | ⟨hsize, ⟨f, ho, h⟩ | ⟨offers, ho, h⟩⟩
  · rw [h]
    exact iff_of_false (by simp [refuse]) fun hb => hsize hb.1
  · rw [h, and_iff_right hsize, Except.error.injEq, openFailure_eq_broke_iff]
    constructor
    · exact fun hk => .opening ho hk
    · intro hb
      cases hb with
      | opening ho' hk =>
        rw [ho] at ho'
        cases ho'
        exact hk
      | unnamed ho' | deep ho' | reading ho' =>
        rw [ho] at ho'
        cases ho'
  · rw [h, and_iff_right hsize, bundleOf_eq_broke_iff hs hl, treeOf_eq_broke_iff, breaksOff_iff_of_opened ho]

/-- **An archive is read exactly when it is not too large, can be opened, and its files are accepted.** -/
theorem exists_read_iff {bytes : ByteArray} : (∃ b, read s room bytes = .ok b) ↔
    (bytes.size : Int) ≤ limit ∧ ∃ offers, offersOf bytes = .ok offers ∧ IsAccepted s room limit offers := by
  rcases read_cases hl room bytes with ⟨hsize, reason, h⟩ | ⟨hsize, ⟨f, ho, h⟩ | ⟨offers, ho, h⟩⟩
  · rw [h]
    exact iff_of_false (by simp [refuse]) fun hb => hsize hb.1
  · rw [h, ho]
    simp
  · rw [h, ho, exists_bundleOf_iff hs hl]
    simp [hsize]

/-- **A bad archive is refused as one**, or it breaks off with what `BreaksOff` lists; anything else is read. -/
theorem read_ok_or_refused (room : Nat) (bytes : ByteArray) :
    (∀ k, read s room bytes = .error (.broke k) ↔ (bytes.size : Int) ≤ limit ∧ BreaksOff s room limit bytes k) ∧
      ((¬ ∃ k, (bytes.size : Int) ≤ limit ∧ BreaksOff s room limit bytes k) →
        (∃ b, read s room bytes = .ok b) ∨ ∃ r, read s room bytes = .error (.refused r) ∧ r.cls = .invalidArchive) := by
  refine ⟨fun k => read_eq_broke_iff hs hl, fun h => ?_⟩
  cases hr : read s room bytes with
  | ok b => exact .inl ⟨b, rfl⟩
  | error e =>
    cases e with
    | refused r => exact .inr ⟨r, rfl, read_eq_refused hs hl hr⟩
    | broke k => exact absurd ⟨k, (read_eq_broke_iff hs hl).1 hr⟩ h

end Typed

theorem archiveLimit_fallback : Settings.fallback.archiveLimit = .ok 52428800 := by decide +kernel

theorem read_ok_or_refused_tooNew :
    read .fallback 960 (Zip.emptyFiles 99 ["a.js"]) = .error (.broke (.archiveTooNew 99)) ∧
      BreaksOff .fallback 960 52428800 (Zip.emptyFiles 99 ["a.js"]) (.archiveTooNew 99) := by
  have h : read .fallback 960 (Zip.emptyFiles 99 ["a.js"]) = .error (.broke (.archiveTooNew 99)) := by
    decide +kernel
  have hlisted := read_ok_or_refused Settings.isTyped_fallback archiveLimit_fallback 960 (Zip.emptyFiles 99 ["a.js"])
  exact ⟨h, ((hlisted.1 (.archiveTooNew 99)).1 h).2⟩

/-- Two folders inside each other are one too many. -/
example : read .fallback 1 (Zip.emptyFiles 20 ["d/e/a.js"]) = breakDown .tooDeep := by decide +kernel

/-! ## What is not accepted -/

/-- **Why an archive of some size is not accepted.**  Names and clashes are of all files, selected or not. -/
inductive IsUnacceptable (s : Settings) (limit : Int) (packed : Nat) (offers : List Offer) : Prop where
  | packedSize (h : limit < packed)
  | name {o : Offer} (ho : o ∈ offers) (hf : o.isFolder = false) (h : EntryName.IsUnsafe o.name)
  | clash {o o' : Offer} (ho : o ∈ offers) (ho' : o' ∈ offers) (hf : o.isFolder = false) (hf' : o'.isFolder = false)
      (h : FilePath.IsAbove o.path o'.path)
  | count {n : Int} (hn : (s .maxFiles).quantity? = some (.whole n)) (h : n < (selectedPaths s offers).card)
  | unpackedSize (h : limit < (∑ p ∈ selectedPaths s offers, sizeAt offers p : Nat))
  | unreadable {p : FilePath} (hp : p ∈ selectedPaths s offers) (h : faultAt? offers p ≠ none)

theorem tooManyFiles_eq_false_iff {n : Int} {count : Nat} (hn : (s .maxFiles).quantity? = some (.whole n)) :
    s.tooManyFiles count = false ↔ (count : Int) ≤ n := by
  simp [Settings.tooManyFiles, hn, Value.Quantity.ltInt]

theorem not_isUnacceptable_iff (hs : s.IsTyped) {packed : Nat} (hn : ∀ o ∈ offers, o.name ≠ "")
    (hin : ¬ RunsOut s room offers) :
    ¬ IsUnacceptable s limit packed offers ↔ (packed : Int) ≤ limit ∧ IsAccepted s room limit offers := by
  obtain ⟨n, hmax⟩ := hs.maxFiles
  constructor
  · intro h
    refine ⟨not_lt.1 fun hp => h (.packedSize hp), ?_⟩
    exact {
      count := (tooManyFiles_eq_false_iff hmax).2 (not_lt.1 fun hc => h (.count hmax hc))
      size := not_lt.1 fun hc => h (.unpackedSize hc)
      fits := ⟨hn, fun o ho hf hu => h (.name ho hf hu), fun o ho o' ho' hf hf' hc => h (.clash ho ho' hf hf' hc)⟩
      shallow := hin
      readable := fun p hp => not_not.1 fun hc => h (.unreadable hp hc) }
  · rintro ⟨hp, ha⟩ h
    cases h with
    | packedSize h => exact absurd hp (not_le.2 h)
    | name ho hf h => exact ha.fits.safe _ ho hf h
    | clash ho ho' hf hf' h => exact ha.fits.apart _ ho _ ho' hf hf' h
    | count hn h => exact absurd ((tooManyFiles_eq_false_iff hn).1 ha.count) (not_le.2 h)
    | unpackedSize h => exact absurd ha.size (not_le.2 h)
    | unreadable hp h => exact h (ha.readable _ hp)

section Opened

variable {bytes : ByteArray} (ho : offersOf bytes = .ok offers) (hn : ∀ o ∈ offers, o.name ≠ "")
  (hf : ∀ o ∈ offers, ∀ f, o.content.get = .error f → f.breakdown? = none)
include ho hn hf

/-- An archive that can be opened, with names, whose unreadable files are refused, breaks off only when it is deep. -/
theorem breaksOff_iff {k : Breakdown} :
    BreaksOff s room limit bytes k ↔ Fits offers ∧ RunsOut s room offers ∧ k = .tooDeep := by
  rw [breaksOff_iff_of_opened ho]
  constructor
  · rintro (⟨-, before, o, after, rfl, -, he⟩ | hdeep | ⟨-, -, -, f, ⟨p, hp, hfault, -⟩, hk⟩)
    · exact absurd he (hn o (List.mem_append_right _ List.mem_cons_self))
    · exact hdeep
    · obtain ⟨o, hlast⟩ := isSome_lastAt?.2 (mem_selectedPaths.1 hp).1
      rw [hf o (mem_of_lastAt? hlast) f ((faultAt?_eq_some_iff hlast).1 hfault)] at hk
      cases hk
  · exact fun hdeep => .inr (.inl hdeep)

variable (hs : s.IsTyped) (hl : s.archiveLimit = .ok limit)
include hs hl

/-- Such an archive is refused when it is neither read nor too deep. -/
theorem exists_refused_iff : (∃ r, read s room bytes = .error (.refused r) ∧ r.cls = .invalidArchive) ↔
    (¬ ∃ b, read s room bytes = .ok b) ∧ ¬ ((bytes.size : Int) ≤ limit ∧ Fits offers ∧ RunsOut s room offers) := by
  have hbroke : ∀ {k}, read s room bytes = .error (.broke k) ↔
      (bytes.size : Int) ≤ limit ∧ Fits offers ∧ RunsOut s room offers ∧ k = .tooDeep := by
    intro k
    rw [read_eq_broke_iff hs hl, breaksOff_iff ho hn hf]
  cases hr : read s room bytes with
  | ok b => simp
  | error e =>
    cases e with
    | refused r =>
      have hnone : ¬ ((bytes.size : Int) ≤ limit ∧ Fits offers ∧ RunsOut s room offers) := by
        rintro ⟨hsize, hfits, hout⟩
        rw [hbroke.2 ⟨hsize, hfits, hout, rfl⟩] at hr
        cases hr
      simp [read_eq_refused hs hl hr, hnone]
    | broke k =>
      obtain ⟨hsize, hfits, hout, -⟩ := hbroke.1 hr
      simp [hsize, hfits, hout]

end Opened

/-- What is read of an offer is no longer than it says. -/
theorem size_content_le {bytes content : ByteArray} {o : Offer} (ho : offersOf bytes = .ok offers) (hm : o ∈ offers)
    (hc : o.content.get = .ok content) : content.size ≤ o.size := by
  unfold offersOf at ho
  cases hd : Zip.readDirectory bytes with
  | error f =>
    rw [hd] at ho
    cases ho
  | ok directory =>
    rw [hd] at ho
    cases ho
    obtain ⟨⟨e, index⟩, -, rfl⟩ := List.mem_map.1 hm
    exact Zip.Entry.size_content_le hc

theorem bytesAt_le_sizeAt {bytes : ByteArray} (ho : offersOf bytes = .ok offers) (p : FilePath) :
    bytesAt offers p ≤ sizeAt offers p := by
  unfold bytesAt sizeAt
  cases hlast : lastAt? offers p with
  | none => exact Nat.le_refl 0
  | some o =>
    simp only [Option.elim_some]
    split
    · next content hc => exact size_content_le ho (mem_of_lastAt? hlast) hc
    · exact Nat.zero_le _

/-- **When an archive that can be opened is refused.**  As long as there is room to visit its folders, it is refused
exactly when it is not acceptable, and of what is read of one that is not refused the settings bound the bytes.  When
there is not, it is refused exactly when it is too large or its files do not fit, and breaks off otherwise. -/
theorem read_refused_iff {bytes : ByteArray} (hs : s.IsTyped) (hl : s.archiveLimit = .ok limit)
    (ho : offersOf bytes = .ok offers) (hn : ∀ o ∈ offers, o.name ≠ "")
    (hf : ∀ o ∈ offers, ∀ f, o.content.get = .error f → f.breakdown? = none) (room : Nat) :
    (¬ RunsOut s room offers →
      ((∃ r, read s room bytes = .error (.refused r) ∧ r.cls = .invalidArchive) ↔
        IsUnacceptable s limit bytes.size offers) ∧
      (¬ IsUnacceptable s limit bytes.size offers → (∃ b, read s room bytes = .ok b) ∧
        ((∑ p ∈ selectedPaths s offers, bytesAt offers p : Nat) : Int) ≤ limit)) ∧
    (RunsOut s room offers →
      ((∃ r, read s room bytes = .error (.refused r) ∧ r.cls = .invalidArchive) ↔
        limit < bytes.size ∨ ¬ Fits offers) ∧
      ((bytes.size : Int) ≤ limit → Fits offers → read s room bytes = breakDown .tooDeep)) := by
  constructor
  · intro hin
    have hok : (∃ b, read s room bytes = .ok b) ↔ ¬ IsUnacceptable s limit bytes.size offers := by
      rw [exists_read_iff hs hl, not_isUnacceptable_iff hs hn hin, ho]
      simp
    constructor
    · rw [exists_refused_iff ho hn hf hs hl, hok]
      simp [hin]
    · intro hu
      obtain ⟨-, ha⟩ := (not_isUnacceptable_iff hs hn hin).1 hu
      refine ⟨hok.2 hu, le_trans (Int.ofNat_le.2 ?_) ha.size⟩
      exact Finset.sum_le_sum fun p _ => bytesAt_le_sizeAt ho p
  · intro hout
    have hnot : ¬ ∃ b, read s room bytes = .ok b := by
      rw [exists_read_iff hs hl, ho]
      rintro ⟨-, offers', ⟨⟩, ha⟩
      exact ha.shallow hout
    constructor
    · rw [exists_refused_iff ho hn hf hs hl, and_iff_right hnot, not_and_or, not_le]
      simp [hout]
    · intro hsize hfits
      exact (read_eq_broke_iff hs hl).2 ⟨hsize, .deep ho hfits hout⟩

/-- The second file would need the first to be a folder. -/
def clashing : ByteArray := Zip.emptyFiles 20 ["a.js", "./a.js\\b"]

def clashingOffers : List Offer := (offersOf clashing).toOption.getD []

theorem read_refused_iff_clashing : (∃ r, read .fallback 960 clashing = .error (.refused r) ∧ r.cls = .invalidArchive) ∧
    IsUnacceptable .fallback 52428800 clashing.size clashingOffers := by
  have hrun : (offersOf clashing).isOk = true ∧ (∀ o ∈ clashingOffers, o.name ≠ "" ∧ o.content.get.isOk = true) ∧
      read .fallback 960 clashing =
        refuse (.invalidArchive "entry is both a file and a folder" (some "./a.js\\b")) := by
    decide +kernel
  obtain ⟨hopened, hoffers, hread⟩ := hrun
  have ho : offersOf clashing = .ok clashingOffers := by
    unfold clashingOffers
    cases h : offersOf clashing with
    | ok offers => rfl
    | error f =>
      rw [h] at hopened
      cases hopened
  have hf : ∀ o ∈ clashingOffers, ∀ f, o.content.get = .error f → f.breakdown? = none := by
    intro o hm f h
    have hok := (hoffers o hm).2
    rw [h] at hok
    cases hok
  have hin : ¬ RunsOut .fallback 960 clashingOffers := by
    have hshallow : ∀ o ∈ clashingOffers, o.path.dropLast.length ≤ 960 := by decide +kernel
    rintro ⟨o, hm, -, hout⟩
    exact absurd hout.1 (not_lt.2 (hshallow o hm))
  have hiff := (read_refused_iff Settings.isTyped_fallback archiveLimit_fallback ho (fun o hm => (hoffers o hm).1) hf
    960).1 hin
  exact ⟨⟨_, hread, rfl⟩, hiff.1.1 ⟨_, hread, rfl⟩⟩

end Archive
end Cognitive
