import Cognitive.Batch.Archive
import Cognitive.Proofs.Batch.Clash
import Cognitive.Proofs.Batch.Selected
import Cognitive.Proofs.Zip.Content
/-!
# The names of results

A result of an archive goes by the path of its file, without the root when there is one.  Three views of a name have to
agree for this: the check that reads its clean form, the path that drops the empty folder names, and the root that is
found among all names and cut off the joined path.  They do, because a selected path is proper (`Offer.isProper_path`),
its joined form is clean already (`FilePath.IsProper.cleanChars_join`), and it starts with the root whenever there is
one (`Archive.exists_below_root`).
-/
namespace Cognitive

/-! ## Proper paths -/

/-- **A file name that leads downwards**: it has slashes only between pieces, and no piece is empty or goes up. -/
structure EntryName.IsProper (name : String) : Prop where
  relative : name.toList.head? ≠ some '/'
  slashes : '\\' ∉ name.toList
  pieces : ∀ piece ∈ Text.splitString '/' name, piece ≠ "" ∧ piece ≠ ".."

namespace FilePath

/-- **A path whose joined form is a proper name**, cut at the same places. -/
structure IsProper (p : FilePath) : Prop where
  nonempty : p ≠ []
  pieces : ∀ piece ∈ p, piece ≠ "" ∧ piece ≠ ".." ∧ '/' ∉ piece.toList ∧ '\\' ∉ piece.toList

namespace IsProper

variable {p q : FilePath}

theorem splitString_join (h : IsProper p) : Text.splitString '/' (Text.join "/" p) = p :=
  Text.splitString_join h.nonempty fun piece hp => (h.pieces piece hp).2.2.1

theorem join_inj (hp : IsProper p) (hq : IsProper q) (h : Text.join "/" p = Text.join "/" q) : p = q := by
  rw [← hp.splitString_join, h, hq.splitString_join]

theorem backslash_not_mem (h : IsProper p) : '\\' ∉ (Text.join "/" p).toList := by
  intro hc
  rcases Text.mem_join hc with hc | ⟨piece, hp, hc⟩
  · simp at hc
  · exact (h.pieces piece hp).2.2.2 hc

/-- The joined path starts with the first piece. -/
theorem head?_eq (h : IsProper p) :
    p.head? = some (String.ofList ((Text.join "/" p).toList.takeWhile (· != '/'))) := by
  rw [← Text.head?_splitString, h.splitString_join]

theorem isProper_join (h : IsProper p) : EntryName.IsProper (Text.join "/" p) where
  relative := by
    intro hhead
    have hfirst := h.head?_eq
    obtain ⟨rest, hrest⟩ := List.head?_eq_some_iff.1 hhead
    rw [hrest, List.takeWhile_cons_of_neg (by simp)] at hfirst
    exact (h.pieces _ (List.mem_of_mem_head? hfirst)).1 rfl
  slashes := h.backslash_not_mem
  pieces := by
    rw [h.splitString_join]
    exact fun piece hp => ⟨(h.pieces piece hp).1, (h.pieces piece hp).2.1⟩

/-- **A joined path is clean already** when its first folder is not a single dot. -/
theorem cleanChars_join (h : IsProper p) (hfront : p.head? = some "." → p = ["."]) :
    EntryName.cleanChars (Text.join "/" p).toList = (Text.join "/" p).toList := by
  refine EntryName.cleanChars_eq_self h.backslash_not_mem fun rest hdot => ?_
  have hfirst := h.head?_eq
  rw [hdot, List.takeWhile_cons_of_pos (by decide), List.takeWhile_cons_of_neg (by decide)] at hfirst
  rw [hfront hfirst, Text.join_singleton] at hdot
  cases hdot

end IsProper
end FilePath

/-! ## Paths of offers -/

namespace Offer

variable {o : Offer}

/-- A file lies in no folder exactly when its name is one piece; else its first folder is the first piece. -/
theorem folders_cases (hsafe : ¬ EntryName.IsUnsafe o.name) :
    (EntryName.pieces o.name = [o.leaf] ∧ o.folders = []) ∨
      ∃ first rest inner, EntryName.pieces o.name = first :: rest ∧ rest ≠ [] ∧ first ≠ "" ∧ first ≠ "." ∧
        o.folders = first :: inner := by
  have hfolders : o.folders = (EntryName.pieces o.name).dropLast.filter fun p => !p.isEmpty := rfl
  have hleaf : o.leaf = (EntryName.pieces o.name).getLast?.getD "" := rfl
  cases hp : EntryName.pieces o.name with
  | nil => exact absurd hp (Text.splitString_ne_nil _)
  | cons first rest =>
    rw [hp] at hfolders hleaf
    cases rest with
    | nil => exact .inl ⟨by rw [hleaf]; rfl, hfolders⟩
    | cons second rest =>
      have hne := List.cons_ne_nil second rest
      have he := EntryName.first_ne_empty hp hne fun ha => hsafe (.absolute ha)
      rw [List.dropLast_cons_cons, List.filter_cons_of_pos (by simpa using he)] at hfolders
      exact .inr ⟨first, second :: rest, _, rfl, hne, he, EntryName.first_ne_dot hp hne, hfolders⟩

theorem leaf_mem_pieces (o : Offer) : o.leaf ∈ EntryName.pieces o.name := by
  have hlast := List.getLast?_eq_some_getLast (Text.splitString_ne_nil (EntryName.clean o.name))
  unfold leaf pieces
  rw [hlast, Option.getD_some]
  exact List.getLast_mem _

theorem isProper_path (hsafe : ¬ EntryName.IsUnsafe o.name) (hleaf : o.leaf ≠ "") : o.path.IsProper where
  nonempty := by simp [path]
  pieces := by
    intro piece hm
    have hpiece : piece ∈ EntryName.pieces o.name ∧ piece ≠ "" := by
      rcases List.mem_append.1 hm with hm | hm
      · obtain ⟨hd, he⟩ := List.mem_filter.1 hm
        exact ⟨List.mem_of_mem_dropLast hd, by simpa using he⟩
      · rw [List.mem_singleton.1 hm]
        exact ⟨o.leaf_mem_pieces, hleaf⟩
    refine ⟨hpiece.2, fun hup => hsafe (.upward (hup ▸ hpiece.1)), EntryName.mem_pieces hpiece.1⟩

theorem path_front (hsafe : ¬ EntryName.IsUnsafe o.name) (h : o.path.head? = some ".") : o.path = ["."] := by
  unfold path at h ⊢
  rcases folders_cases hsafe with ⟨-, hf⟩ | ⟨first, rest, inner, -, -, -, hd, hf⟩
  · rw [hf] at h ⊢
    exact congrArg (fun leaf => [leaf]) (Option.some.inj h)
  · rw [hf] at h
    exact absurd (Option.some.inj h) hd

end Offer

/-! ## The root -/

/-- The name that a name relative to the root had. -/
def EntryName.underRoot (root : Option String) (name : String) : String :=
  match root with
  | some r => r ++ "/" ++ name
  | none => name

theorem EntryName.underRoot_join {root : Option String} {p : FilePath} (hne : p ≠ []) :
    underRoot root (Text.join "/" p) = Text.join "/" (root.toList ++ p) := by
  cases root with
  | none => rfl
  | some r => exact (Text.join_cons "/" r hne).symm

theorem EntryName.relativeTo_none {p : FilePath} (hp : p.IsProper) (hfront : p.head? = some "." → p = ["."]) :
    relativeTo none (Text.join "/" p) = Text.join "/" p := by
  unfold relativeTo
  rw [hp.cleanChars_join hfront]
  exact String.ofList_toList

theorem EntryName.relativeTo_some {root : String} {p : FilePath} (hp : FilePath.IsProper (root :: p)) (hne : p ≠ [])
    (hfront : root ≠ ".") : relativeTo (some root) (Text.join "/" (root :: p)) = Text.join "/" p := by
  have hroot : root.isEmpty = false := by simpa using (hp.pieces root List.mem_cons_self).1
  have htext : (Text.join "/" (root :: p)).toList = (root.toList ++ ['/']) ++ (Text.join "/" p).toList := by
    rw [Text.join_cons "/" root hne, String.toList_append, String.toList_append]
    rfl
  unfold relativeTo
  rw [hp.cleanChars_join fun h => absurd (Option.some.inj h) hfront, htext]
  simp only [hroot, Bool.not_false, Bool.true_and]
  rw [if_pos (List.isPrefixOf_iff_prefix.2 (List.prefix_append _ _)), List.drop_left]
  exact String.ofList_toList

/-! ## Selected paths -/

namespace Settings

variable {s : Settings} {name : String}

theorem head?_of_checkExtensions : ∀ {items : List Value}, checkExtensions items = .ok () →
    ∀ e, .str e ∈ items → e.toList.head? = some '.'
  | [], _, e, hm => by cases hm
  | .str first :: rest, h, e, hm => by
    rw [checkExtensions] at h
    split at h
    · next hstart =>
      rcases List.mem_cons.1 hm with hm | hm
      · cases hm
        exact List.singleton_prefix_iff_head?_eq_some.1 (String.startsWith_string_iff.1 hstart)
      · exact head?_of_checkExtensions h e hm
    · unfold refuseSetting at h
      split at h <;> cases h
  | .null :: _, h, _, _ | .bool _ :: _, h, _, _ | .int _ :: _, h, _, _ | .float _ :: _, h, _, _
  | .list _ :: _, h, _, _ | .table _ :: _, h, _, _ => by cases h

/-- A source file's name has a dot, for settings that have been checked. -/
theorem dot_mem_of_endsInExtension (hs : s.check = .ok ()) (h : s.EndsInExtension name) : '.' ∈ name.toList := by
  obtain ⟨items, hi, hc⟩ := Outcome.bind_eq_ok_iff.1 hs
  obtain ⟨items', hi', e, he, hsuffix⟩ := h
  rw [hi] at hi'
  cases hi'
  obtain ⟨u, hext, -⟩ := Outcome.bind_eq_ok_iff.1 hc
  exact hsuffix.subset (List.mem_of_mem_head? (head?_of_checkExtensions hext e he))

end Settings

namespace Archive

variable {s : Settings} {offers : List Offer}

theorem mem_namesOf {o : Offer} (ho : o ∈ offers) (hf : o.isFolder = false) : o.name ∈ namesOf offers :=
  List.mem_map_of_mem (List.mem_filter.2 ⟨ho, by rw [hf]; rfl⟩)

/-- A selected file counts among the names that the root is found in. -/
theorem isIgnoredForRoot_eq_false {o : Offer} (hn : o.name ≠ "") (hfile : o.isFolder = false)
    (hsafe : ¬ EntryName.IsUnsafe o.name) (hdot : '.' ∈ o.leaf.toList)
    (hnoise : ∀ f ∈ o.folders, f ≠ "__MACOSX") : EntryName.isIgnoredForRoot o.name = false := by
  have htop : EntryName.top o.name ≠ "" ∧ EntryName.top o.name ≠ "__MACOSX" := by
    rcases Offer.folders_cases hsafe with ⟨hp, -⟩ | ⟨first, rest, inner, hp, -, he, -, hf⟩
    · rw [EntryName.top_eq_of_pieces hp]
      -- neither has a dot
      constructor
      · intro h
        simp [h] at hdot
      · intro h
        simp [h] at hdot
    · rw [EntryName.top_eq_of_pieces hp]
      exact ⟨he, hnoise first (hf ▸ List.mem_cons_self)⟩
  have hlast : o.name.toList.getLast? ≠ some '/' := by
    unfold Offer.isFolder at hfile
    simpa using hfile
  simp [EntryName.isIgnoredForRoot, EntryName.noiseFolders, hn, hlast, htop]

/-- **A selected path is a proper path below the root**, and it is that path that the joined one is named by. -/
theorem exists_below_root (hs : s.check = .ok ()) (hfits : Fits offers) {p : FilePath}
    (hp : p ∈ selectedPaths s offers) :
    ∃ q, p = (EntryName.commonRoot (namesOf offers)).toList ++ q ∧ FilePath.IsProper q ∧
      EntryName.relativeTo (EntryName.commonRoot (namesOf offers)) (Text.join "/" p) = Text.join "/" q := by
  obtain ⟨⟨o, ho, hfile, rfl⟩, hselects⟩ := mem_selectedPaths.1 hp
  have hsafe := hfits.safe o ho hfile
  obtain ⟨hext, hfolders⟩ := Settings.selects_append.1 hselects
  have hdot := Settings.dot_mem_of_endsInExtension hs hext
  have hleaf : o.leaf ≠ "" := by
    intro h
    simp [h] at hdot
  have hproper := Offer.isProper_path hsafe hleaf
  cases hroot : EntryName.commonRoot (namesOf offers) with
  | none => exact ⟨o.path, rfl, hproper, EntryName.relativeTo_none hproper (Offer.path_front hsafe)⟩
  | some root =>
    have hcounts := isIgnoredForRoot_eq_false (hfits.named o ho) hfile hsafe hdot fun f hf => (hfolders f hf).1
    obtain ⟨htop, htwo⟩ := EntryName.commonRoot_eq_some hroot (mem_namesOf ho hfile) hcounts
    rcases Offer.folders_cases hsafe with ⟨hpieces, -⟩ | ⟨first, rest, inner, hpieces, -, -, hd, hf⟩
    · -- the file is at the top, so that there is no root
      have hone : EntryName.isAtTop o.name = true := by
        rw [EntryName.isAtTop_iff, hpieces]
        rfl
      rw [htwo] at hone
      cases hone
    · have hfirst : first = root := by rw [← htop, EntryName.top_eq_of_pieces hpieces]
      subst hfirst
      have hpath : o.path = first :: (inner ++ [o.leaf]) := by rw [Offer.path, hf, List.cons_append]
      have hinner : inner ++ [o.leaf] ≠ [] := by simp
      rw [hpath] at hproper ⊢
      exact ⟨inner ++ [o.leaf], rfl, ⟨hinner, fun piece hm => hproper.pieces piece (List.mem_cons_of_mem _ hm)⟩,
        EntryName.relativeTo_some hproper hinner hd⟩

/-- The sources of an archive go by the joined selected paths. -/
theorem exists_paths_of_bundleOf {room : Nat} {b : Bundle} (h : bundleOf s room offers = .ok b) :
    Fits offers ∧ b.names = namesOf offers ∧ ∃ paths : List FilePath, paths.Nodup ∧
      (∀ p ∈ paths, p ∈ selectedPaths s offers) ∧ b.sources.map Entry.name = paths.map (Text.join "/") := by
  obtain ⟨t, selected, ht, hsel, hm, hnames⟩ := exists_of_bundleOf h
  refine ⟨exists_treeOf_iff.1 ⟨t, ht⟩, hnames, (t.selected s).map (·.1), nodup_selected ht, fun p hp => ?_, ?_⟩
  · obtain ⟨e, he, rfl⟩ := List.mem_map.1 hp
    exact ((mem_selected_treeOf ht).1 he).1
  · rw [Outcome.mapM_eq_ok_iff, FileTree.select_eq_ok hsel, List.forall₂_map_left_iff] at hm
    rw [List.map_map]
    refine (map_eq_map_of_forall₂ (hm.imp fun e entry he => ?_)).symm
    rw [(entryOf_eq_ok he).1, String.empty_append]
    rfl

end Archive

/-! ## Results -/

theorem allOrFirst_map {α β : Type} (f : α → Outcome β) (items : List α) :
    allOrFirst (items.map f) = items.mapM f := by
  induction items with
  | nil => rfl
  | cons a rest ih =>
    rw [List.map_cons, List.mapM_cons]
    cases f a with
    | error e => rfl
    | ok b =>
      rw [allOrFirst, ih]
      cases rest.mapM f <;> rfl

namespace Grammars

variable {g : Grammars} {s : Settings}

theorem fileName_result {e : Entry} {r : FileResult} (h : g.result e = .ok r) : r.fileName = e.name := by
  unfold result at h
  split at h
  · cases h
    rfl
  · split at h <;> cases h
    rfl
  · cases h

/-- **A summary of a bundle** has the root of its names, and for each source in order the result under its name relative
to the root. -/
theorem analyzeBundle_eq_ok {b : Bundle} {summary : Summary} (h : g.analyzeBundle s b = .ok summary) :
    summary.rootFolder = EntryName.commonRoot b.names ∧
      List.Forall₂ (fun e r => g.result ⟨EntryName.relativeTo (EntryName.commonRoot b.names) e.name, e.text⟩ = .ok r)
        b.sources summary.results := by
  obtain ⟨results, hr, h⟩ := Outcome.bind_eq_ok_iff.1 h
  cases h
  rw [outcomes_eq, allOrFirst_map, Outcome.mapM_eq_ok_iff, List.forall₂_map_left_iff] at hr
  exact ⟨rfl, hr⟩

/-- **The results of an archive have distinct proper names**, one for each source in order, from which and the root the
source's own name comes back.  The settings are checked ones, as all settings in use are. -/
theorem analyzeArchive_names {room : Nat} {bytes : ByteArray} {summary : Summary} (hs : s.check = .ok ())
    (h : g.analyzeArchive s room bytes = .ok summary) :
    ∃ b, Archive.read s room bytes = .ok b ∧
      (summary.results.map FileResult.fileName).Nodup ∧
      (∀ r ∈ summary.results, EntryName.IsProper r.fileName) ∧
      List.Forall₂ (fun e r => g.result ⟨r.fileName, e.text⟩ = .ok r ∧
        e.name = EntryName.underRoot summary.rootFolder r.fileName) b.sources summary.results := by
  obtain ⟨b, hb, h⟩ := Outcome.bind_eq_ok_iff.1 h
  obtain ⟨offers, -, hbundle⟩ := Archive.read_eq_ok hb
  obtain ⟨hfits, hall, paths, hnodup, hsel, hnames⟩ := Archive.exists_paths_of_bundleOf hbundle
  obtain ⟨hroot, hresults⟩ := analyzeBundle_eq_ok h
  rw [hall] at hroot hresults
  have hbelow : ∀ p ∈ paths, ∃ q, p = summary.rootFolder.toList ++ q ∧ FilePath.IsProper q ∧
      EntryName.relativeTo summary.rootFolder (Text.join "/" p) = Text.join "/" q := by
    intro p hp
    rw [hroot]
    exact Archive.exists_below_root hs hfits (hsel p hp)
  choose! below hpath hproper hrelative using hbelow
  rw [← hroot] at hresults
  have hfiles : summary.results.map FileResult.fileName = paths.map fun p => Text.join "/" (below p) := by
    have hname : summary.results.map FileResult.fileName =
        b.sources.map fun e => EntryName.relativeTo summary.rootFolder e.name :=
      (map_eq_map_of_forall₂ (hresults.imp fun e r hr => (fileName_result hr).symm)).symm
    have hsources : b.sources.map (fun e => EntryName.relativeTo summary.rootFolder e.name) =
        paths.map fun p => EntryName.relativeTo summary.rootFolder (Text.join "/" p) := by
      have := congrArg (List.map (EntryName.relativeTo summary.rootFolder)) hnames
      rw [List.map_map, List.map_map] at this
      exact this
    rw [hname, hsources]
    exact List.map_congr_left hrelative
  refine ⟨b, hb, ?_, fun r hr => ?_, ?_⟩
  · rw [hfiles]
    refine hnodup.map_on fun p hp p' hp' heq => ?_
    have hbelow := (hproper p hp).join_inj (hproper p' hp') heq
    rw [hpath p hp, hpath p' hp', hbelow]
  · have hm := List.mem_map_of_mem (f := FileResult.fileName) hr
    rw [hfiles] at hm
    obtain ⟨p, hp, hq⟩ := List.mem_map.1 hm
    rw [← hq]
    exact (hproper p hp).isProper_join
  · have hsource : ∀ e ∈ b.sources,
        e.name = EntryName.underRoot summary.rootFolder (EntryName.relativeTo summary.rootFolder e.name) := by
      intro e he
      have hm := List.mem_map_of_mem (f := Entry.name) he
      rw [hnames] at hm
      obtain ⟨p, hp, hq⟩ := List.mem_map.1 hm
      rw [← hq, hrelative p hp, EntryName.underRoot_join (hproper p hp).nonempty, ← hpath p hp]
    refine ((List.forall₂_and_left _ _).2 ⟨hsource, hresults⟩).imp fun e r he => ?_
    have hn := fileName_result he.2
    rw [hn]
    exact ⟨he.2, he.1⟩

/-- A parser that finds nothing in any text. -/
def blank : Grammars :=
  ⟨fun _ text => ⟨.ofString text, some (.mk ⟨"program", true, false, false, 0, 0, none, true, true, true, true⟩ [])⟩⟩

/-- A file below a folder, with an empty folder name in between. -/
def rooted : ByteArray := Zip.emptyFiles 20 ["./r//b.js"]

def rootedSummary : Summary := ⟨some "r", [⟨"b.js", .measured ⟨1, 0, []⟩⟩]⟩

theorem analyzeArchive_names_rooted : Settings.fallback.check = .ok () ∧
    blank.analyzeArchive .fallback 960 rooted = .ok rootedSummary ∧
      ∃ b, Archive.read .fallback 960 rooted = .ok b ∧
        (rootedSummary.results.map FileResult.fileName).Nodup ∧
        (∀ r ∈ rootedSummary.results, EntryName.IsProper r.fileName) ∧
        List.Forall₂ (fun e r => blank.result ⟨r.fileName, e.text⟩ = .ok r ∧
          e.name = EntryName.underRoot rootedSummary.rootFolder r.fileName) b.sources rootedSummary.results := by
  have hs : Settings.fallback.check = .ok () := by decide +kernel
  have h : blank.analyzeArchive .fallback 960 rooted = .ok rootedSummary := by decide +kernel
  exact ⟨hs, h, analyzeArchive_names hs h⟩

end Grammars
end Cognitive
