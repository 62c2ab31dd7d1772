import Cognitive.Proofs.Batch.Isolation
import Cognitive.Proofs.Batch.Refusal
/-!
# The order of the files in an archive

An archive comes to the same in whatever order it offers its files, as long as no two of them have one path.  What its
bundle hangs on is said of the offers without their order: the file at each path (`lastAt?_perm`), whether all files fit,
can be visited and keep the limits (`IsAccepted.perm`), and the root of their names (`EntryName.commonRoot_perm`).  What
is refused may be refused for another reason, since the first of several is given.
-/
namespace Cognitive

theorem EntryName.commonRoot_perm {names names' : List String} (h : names.Perm names') :
    commonRoot names = commonRoot names' := by
  ext root
  rw [commonRoot_eq_some_iff, commonRoot_eq_some_iff]
  simp only [h.mem_iff]

namespace Archive

variable {s : Settings} {room : Nat} {limit : Int} {offers offers' : List Offer}

theorem namesOf_perm (h : offers.Perm offers') : (namesOf offers).Perm (namesOf offers') := (h.filter _).map _

theorem AreDistinct.perm (hd : AreDistinct offers) (h : offers.Perm offers') : AreDistinct offers' :=
  ((h.filter _).map _).nodup_iff.1 hd

theorem Fits.perm (hf : Fits offers) (h : offers.Perm offers') : Fits offers' where
  named o ho := hf.named o (h.mem_iff.2 ho)
  safe o ho := hf.safe o (h.mem_iff.2 ho)
  apart o ho o' ho' := hf.apart o (h.mem_iff.2 ho) o' (h.mem_iff.2 ho')

theorem selectedPaths_perm (h : offers.Perm offers') : selectedPaths s offers = selectedPaths s offers' := by
  ext p
  rw [mem_selectedPaths, mem_selectedPaths]
  simp only [h.mem_iff]

section Distinct

variable (hd : AreDistinct offers) (h : offers.Perm offers')
include hd h

theorem lastAt?_perm (p : FilePath) : lastAt? offers p = lastAt? offers' p := by
  ext o
  rw [lastAt?_eq_some_iff hd, lastAt?_eq_some_iff (hd.perm h), h.mem_iff]

/-- **Whether the files of an archive are accepted does not hang on their order.** -/
theorem IsAccepted.perm (ha : IsAccepted s room limit offers) : IsAccepted s room limit offers' := by
  have hsize : ∀ p, sizeAt offers' p = sizeAt offers p := fun p => by rw [sizeAt, sizeAt, lastAt?_perm hd h]
  have hfault : ∀ p, faultAt? offers' p = faultAt? offers p := fun p => by rw [faultAt?, faultAt?, lastAt?_perm hd h]
  exact {
    count := selectedPaths_perm h ▸ ha.count
    size := by
      rw [← selectedPaths_perm h, Finset.sum_congr rfl fun p _ => hsize p]
      exact ha.size
    fits := ha.fits.perm h
    shallow := fun hout => ha.shallow (hout.perm h.symm)
    readable := fun p hp => by
      rw [hfault]
      exact ha.readable p (selectedPaths_perm h ▸ hp) }

theorem selected_perm {t t' : FileTree Offer} (ht : treeOf offers = .ok t) (ht' : treeOf offers' = .ok t') :
    t.selected s = t'.selected s := by
  refine (selected_rising ht).eq_of_mem_iff (selected_rising ht') fun e => ?_
  rw [mem_selected_treeOf ht, mem_selected_treeOf ht', selectedPaths_perm h, lastAt?_perm hd h]

theorem sources_perm {b b' : Bundle} (hb : bundleOf s room offers = .ok b)
    (hb' : bundleOf s room offers' = .ok b') :
    b.sources = b'.sources ∧ b.names.Perm b'.names := by
  obtain ⟨t, selected, ht, hsel, hm, hnames⟩ := exists_of_bundleOf hb
  obtain ⟨t', selected', ht', hsel', hm', hnames'⟩ := exists_of_bundleOf hb'
  have hsame : selected = selected' := by
    rw [FileTree.select_eq_ok hsel, FileTree.select_eq_ok hsel', selected_perm hd h ht ht']
  subst hsame
  rw [hnames, hnames']
  exact ⟨Except.ok.inj (hm.symm.trans hm'), namesOf_perm h⟩

end Distinct

/-- The sources of an archive were decoded, so that they can be encoded. -/
theorem tear?_of_read {bytes : ByteArray} {b : Bundle} (h : read s room bytes = .ok b) :
    ∀ e ∈ b.sources, e.text.tear? = none := by
  obtain ⟨offers, -, hbundle⟩ := read_eq_ok h
  obtain ⟨t, selected, -, -, hm⟩ := bundleOf_eq_ok hbundle
  intro e he
  obtain ⟨file, -, hfile⟩ := (Outcome.mem_iff_of_mapM hm).1 he
  obtain ⟨-, content, -, htext⟩ := entryOf_eq_ok hfile
  rw [htext, Script.tear?_ofString]

/-- **Two archives of one size that offer the same files, each in an order of its own**: the files have names and
different paths, and what cannot be read of them is refused. -/
structure IsReordering (bytes bytes' : ByteArray) (offers offers' : List Offer) : Prop where
  opened : offersOf bytes = .ok offers
  reopened : offersOf bytes' = .ok offers'
  size : bytes.size = bytes'.size
  perm : offers.Perm offers'
  distinct : AreDistinct offers
  named : ∀ o ∈ offers, o.name ≠ ""
  handled : ∀ o ∈ offers, ∀ f, o.content.get = .error f → f.breakdown? = none

namespace IsReordering

variable {bytes bytes' : ByteArray} (h : IsReordering bytes bytes' offers offers')
include h

theorem symm : IsReordering bytes' bytes offers' offers where
  opened := h.reopened
  reopened := h.opened
  size := h.size.symm
  perm := h.perm.symm
  distinct := h.distinct.perm h.perm
  named o ho := h.named o (h.perm.mem_iff.2 ho)
  handled o ho := h.handled o (h.perm.mem_iff.2 ho)

variable (hs : s.IsTyped) (hl : s.archiveLimit = .ok limit)
include hs hl

theorem exists_read (hr : ∃ b, read s room bytes = .ok b) : ∃ b, read s room bytes' = .ok b := by
  obtain ⟨hsize, offers₁, ho, ha⟩ := (exists_read_iff hs hl).1 hr
  rw [h.opened] at ho
  cases ho
  exact (exists_read_iff hs hl).2 ⟨h.size ▸ hsize, offers', h.reopened, ha.perm h.distinct h.perm⟩

theorem read_eq_tooDeep (hr : read s room bytes = breakDown .tooDeep) : read s room bytes' = breakDown .tooDeep := by
  obtain ⟨hsize, hb⟩ := (read_eq_broke_iff hs hl).1 hr
  obtain ⟨hfits, hout, -⟩ := (breaksOff_iff h.opened h.named h.handled).1 hb
  exact (read_eq_broke_iff hs hl).2 ⟨h.size ▸ hsize, .deep h.reopened (hfits.perm h.perm) (hout.perm h.perm)⟩

/-- **Both archives are read, with the same sources and the same names, or both are refused, or both are too deep.** -/
theorem read_cases (room : Nat) :
    (∃ b b', read s room bytes = .ok b ∧ read s room bytes' = .ok b' ∧ b.sources = b'.sources ∧
      b.names.Perm b'.names) ∨
      ((∃ r, read s room bytes = .error (.refused r) ∧ r.cls = .invalidArchive) ∧
        ∃ r, read s room bytes' = .error (.refused r) ∧ r.cls = .invalidArchive) ∨
      (RunsOut s room offers ∧ read s room bytes = breakDown .tooDeep ∧ read s room bytes' = breakDown .tooDeep) := by
  by_cases hr : ∃ b, read s room bytes = .ok b
  · obtain ⟨b, hb⟩ := hr
    obtain ⟨b', hb'⟩ := h.exists_read hs hl ⟨b, hb⟩
    obtain ⟨offers₁, ho, hbundle⟩ := read_eq_ok hb
    obtain ⟨offers₂, ho', hbundle'⟩ := read_eq_ok hb'
    rw [h.opened] at ho
    rw [h.reopened] at ho'
    cases ho
    cases ho'
    exact .inl ⟨b, b', hb, hb', sources_perm h.distinct h.perm hbundle hbundle'⟩
  · have hr' : ¬ ∃ b, read s room bytes' = .ok b := fun hr' => hr (h.symm.exists_read hs hl hr')
    have hsymm := h.symm
    refine .inr ?_
    by_cases hdeep : (bytes.size : Int) ≤ limit ∧ Fits offers ∧ RunsOut s room offers
    · obtain ⟨hsize, hfits, hout⟩ := hdeep
      have hread := (read_eq_broke_iff hs hl).2 ⟨hsize, .deep h.opened hfits hout⟩
      exact .inr ⟨hout, hread, h.read_eq_tooDeep hs hl hread⟩
    · have hdeep' : ¬ ((bytes'.size : Int) ≤ limit ∧ Fits offers' ∧ RunsOut s room offers') := by
        rintro ⟨hsize, hfits, hout⟩
        exact hdeep ⟨h.size ▸ hsize, hfits.perm hsymm.perm, hout.perm hsymm.perm⟩
      exact .inl ⟨(exists_refused_iff h.opened h.named h.handled hs hl).2 ⟨hr, hdeep⟩,
        (exists_refused_iff hsymm.opened hsymm.named hsymm.handled hs hl).2 ⟨hr', hdeep'⟩⟩

end IsReordering
end Archive

namespace Grammars

variable {g : Grammars} {s : Settings} {limit : Int} {offers offers' : List Offer} {bytes bytes' : ByteArray}

theorem analyzeBundle_congr {b b' : Bundle} (hsources : b.sources = b'.sources) (hnames : b.names.Perm b'.names) :
    g.analyzeBundle s b = g.analyzeBundle s b' := by
  unfold analyzeBundle analyze
  rw [Option.getD_some, Option.getD_some, hsources, EntryName.commonRoot_perm hnames]

/-- **The order of the files in an archive does not show in the summary**: an archive that is refused is refused in any
order, and one that breaks off for its depth does so in any order. -/
theorem analyzeArchive_reordered (hg : g.AreWhole) (hs : s.IsTyped) (hl : s.archiveLimit = .ok limit)
    (h : Archive.IsReordering bytes bytes' offers offers') (room : Nat) :
    (∃ summary, g.analyzeArchive s room bytes = .ok summary ∧ g.analyzeArchive s room bytes' = .ok summary) ∨
      ((∃ r, g.analyzeArchive s room bytes = refuse r ∧ r.cls = .invalidArchive) ∧
        ∃ r, g.analyzeArchive s room bytes' = refuse r ∧ r.cls = .invalidArchive) ∨
      (Archive.RunsOut s room offers ∧ g.analyzeArchive s room bytes = breakDown .tooDeep ∧
        g.analyzeArchive s room bytes' = breakDown .tooDeep) := by
  unfold analyzeArchive
  rcases h.read_cases hs hl room with ⟨b, b', hb, hb', hsources, hnames⟩ | ⟨⟨r, hr, hcls⟩, r', hr', hcls'⟩ |
    ⟨hout, hb, hb'⟩
  · obtain ⟨root, results, -, hsummary, -⟩ := exists_analyze hg s.workerCount (some b.names) (Archive.tear?_of_read hb)
    have hsummary' : g.analyzeBundle s b' = .ok ⟨root, results⟩ := analyzeBundle_congr hsources hnames ▸ hsummary
    exact .inl ⟨_, Outcome.bind_eq_ok_iff.2 ⟨b, hb, hsummary⟩, Outcome.bind_eq_ok_iff.2 ⟨b', hb', hsummary'⟩⟩
  · exact .inr (.inl ⟨⟨r, Outcome.bind_eq_error_iff.2 (.inl hr), hcls⟩, r', Outcome.bind_eq_error_iff.2 (.inl hr'),
      hcls'⟩)
  · exact .inr (.inr ⟨hout, Outcome.bind_eq_error_iff.2 (.inl hb), Outcome.bind_eq_error_iff.2 (.inl hb')⟩)

/-- Two files, packed in falling order. -/
def falling : ByteArray := Zip.emptyFiles 20 ["b.js", "a.js"]

/-- The same files, packed in rising order. -/
def rising : ByteArray := Zip.emptyFiles 20 ["a.js", "b.js"]

theorem analyzeArchive_reordered_rising :
    Archive.IsReordering falling rising [Archive.offered "b.js" "", Archive.offered "a.js" ""]
        [Archive.offered "a.js" "", Archive.offered "b.js" ""] ∧
      ∃ summary, blank.analyzeArchive .fallback 960 falling = .ok summary ∧
        blank.analyzeArchive .fallback 960 rising = .ok summary := by
  have hg : blank.AreWhole := fun l text => ⟨_, rfl, rfl⟩
  have h : Archive.IsReordering falling rising [Archive.offered "b.js" "", Archive.offered "a.js" ""]
      [Archive.offered "a.js" "", Archive.offered "b.js" ""] := {
    opened := Archive.offersOf_eq_ok (by decide +kernel)
    reopened := Archive.offersOf_eq_ok (by decide +kernel)
    size := by decide +kernel
    perm := List.Perm.swap _ _ _
    distinct := by
      unfold Archive.AreDistinct
      decide +kernel
    named := by decide +kernel
    handled := by
      intro o ho f hf
      simp only [List.mem_cons, List.not_mem_nil, or_false] at ho
      rcases ho with rfl | rfl <;> cases hf }
  have hok : (blank.analyzeArchive .fallback 960 falling).isOk = true := by decide +kernel
  refine ⟨h, ?_⟩
  rcases analyzeArchive_reordered hg Settings.isTyped_fallback Archive.archiveLimit_fallback h 960 with
    hsame | ⟨⟨r, hr, -⟩, -⟩ | ⟨-, hr, -⟩
  · exact hsame
  · rw [hr] at hok
    cases hok
  · rw [hr] at hok
    cases hok

end Grammars
end Cognitive
