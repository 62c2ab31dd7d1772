import Mathlib.Tactic.MkIffOfInductiveProp
import Cognitive.Proofs.Text.Lines
import Cognitive.Proofs.Text.Utf8
import Cognitive.Proofs.Tree.Below
/-!
# Places in a text

The line of an offset is the number of line feeds before it (`Source.row_point`), so it grows with the offset.  Between
two offsets on boundaries of characters stands a part of the text that has as many line feeds as there are lines from
the one to the other (`Source.exists_part`).  In a tree whose nodes are placed in a text, a site lies within every site
above it (`Site.within_of_below`), and sites start no earlier than those before them in pre-order
(`Site.pairwise_start`).
-/
namespace Cognitive

/-- The offset lies between two characters of the text, or at an end of it. -/
def IsBoundary (text : String) (offset : Nat) : Prop := String.Pos.Raw.IsValid text ⟨offset⟩

instance (text : String) (offset : Nat) : Decidable (IsBoundary text offset) :=
  inferInstanceAs (Decidable (String.Pos.Raw.IsValid text ⟨offset⟩))

theorem IsBoundary.exists_prefix {text : String} {offset : Nat} (h : IsBoundary text offset) :
    ∃ before, before <+: text.toList ∧ (Utf8.encode before).length = offset := by
  obtain ⟨before, after, rfl, hoffset⟩ := String.Pos.Raw.isValid_iff_exists_append.1 h
  refine ⟨before.toList, ⟨after.toList, String.toList_append.symm⟩, ?_⟩
  have hsize : offset = before.utf8ByteSize := congrArg String.Pos.Raw.byteIdx hoffset
  rw [← Utf8.toList_toUTF8, Utf8.toList_eq, Array.length_toList, hsize]
  rfl

theorem Point.row_foldl (bytes : List UInt8) (p : Point) :
    (bytes.foldl (fun p b => if b = 0x0A then ⟨p.row + 1, 0⟩ else ⟨p.row, p.column + 1⟩) p).row =
      p.row + bytes.count 0x0A := by
  induction bytes generalizing p with
  | nil => rfl
  | cons b bytes ih =>
    rw [List.foldl_cons, ih, List.count_cons]
    by_cases hb : b = 0x0A
    · simp [hb]
      omega
    · simp [hb]

namespace Source

theorem toList_ofString (text : String) : (ofString text).bytes.toList = Utf8.encode text.toList :=
  Utf8.toList_toUTF8 text

theorem row_point (src : Source) (offset : Nat) :
    (src.point offset).row = (src.bytes.toList.take offset).count 0x0A := by
  rw [point, Point.after, Point.row_foldl, Utf8.toList_slice, List.drop_zero, Nat.zero_add]

theorem row_point_mono (src : Source) {a b : Nat} (h : a ≤ b) : (src.point a).row ≤ (src.point b).row := by
  rw [row_point, row_point]
  exact (List.take_prefix_take_left h).sublist.count_le _

/-- Every offset is in a line of the text. -/
theorem row_point_lt (text : String) (offset : Nat) :
    ((ofString text).point offset).row < (Text.LineCount.of text).total := by
  have hcount := (List.take_sublist offset (Utf8.encode text.toList)).count_le 0x0A
  rw [Utf8.count_encode] at hcount
  rw [row_point, toList_ofString, Text.LineCount.of, Text.LineCount.total_ofChars]
  omega

/-- **What stands between two offsets** is a part of the text, with a line feed for each line from one to the other. -/
theorem exists_part {text : String} {a b : Nat} (ha : IsBoundary text a) (hb : IsBoundary text b) (h : a ≤ b) :
    ∃ part, part <:+: text.toList ∧ (ofString text).text a b = String.ofList part ∧
      ((ofString text).point b).row = ((ofString text).point a).row + part.count '\n' := by
  obtain ⟨before, hbefore, rfl⟩ := ha.exists_prefix
  obtain ⟨upTo, hupTo, rfl⟩ := hb.exists_prefix
  obtain ⟨part, rfl⟩ := Utf8.prefix_of_length_encode_le hbefore hupTo h
  have hstart := Utf8.take_encode hbefore
  have hstop := Utf8.take_encode hupTo
  obtain ⟨after, htext⟩ := hupTo
  refine ⟨part, ⟨before, after, htext⟩, ?_, ?_⟩
  · rw [Source.text, Utf8.toList_slice, toList_ofString, hstop, Utf8.encode_append, List.drop_left, Utf8.decode_encode]
  · rw [row_point, row_point, toList_ofString, hstart, hstop, Utf8.count_encode, Utf8.count_encode, List.count_append]

/-- The lines of what stands between two offsets: no more hold something than there are lines from the one to the
other, and no more than in the whole text. -/
theorem nonBlank_text_le {text : String} {a b : Nat} (ha : IsBoundary text a) (hb : IsBoundary text b) (h : a ≤ b) :
    (Text.LineCount.of ((ofString text).text a b)).nonBlank + ((ofString text).point a).row ≤
        ((ofString text).point b).row + 1 ∧
      (Text.LineCount.of ((ofString text).text a b)).nonBlank ≤ (Text.LineCount.of text).nonBlank := by
  obtain ⟨part, hpart, htext, hrow⟩ := exists_part ha hb h
  rw [htext, Text.LineCount.of, String.toList_ofList]
  have hcount := Text.LineCount.nonBlank_le_count part
  exact ⟨by omega, Text.LineCount.nonBlank_le_of_infix hpart⟩

end Source

/-! ## Placed nodes -/

/-- A node has its place in a text: its position is known, it starts and stops on boundaries of characters, its children
lie inside it, and each of them stops no later than the next one starts. -/
@[mk_iff]
structure Node.IsPlaced (text : String) (n : Node) : Prop where
  startKnown : n.label.startKnown = true
  stopKnown : n.label.stopKnown = true
  start : IsBoundary text n.label.start
  stop : IsBoundary text n.label.stop
  start_le_stop : n.label.start ≤ n.label.stop
  inside : ∀ c ∈ n.children, n.label.start ≤ c.label.start ∧ c.label.stop ≤ n.label.stop
  inOrder : n.children.IsChain fun a b => a.label.stop ≤ b.label.start

instance (text : String) (n : Node) : Decidable (n.IsPlaced text) := decidable_of_iff' _ (Node.isPlaced_iff text n)

/-- In a row of nodes each of which stops no later than the next one starts, this holds of any two. -/
theorem Node.pairwise_of_isChain : ∀ {ns : List Node}, (∀ n ∈ ns, n.label.start ≤ n.label.stop) →
    ns.IsChain (fun a b => a.label.stop ≤ b.label.start) → ns.Pairwise fun a b => a.label.stop ≤ b.label.start
  | [], _, _ => .nil
  | [_], _, _ => List.pairwise_singleton ..
  | a :: b :: ns, hle, h => by
    obtain ⟨hab, h⟩ := List.isChain_cons_cons.1 h
    have hrest := pairwise_of_isChain (fun n hn => hle n (List.mem_cons_of_mem a hn)) h
    refine List.Pairwise.cons ?_ hrest
    intro c hc
    rcases List.mem_cons.1 hc with rfl | hc
    · exact hab
    · have hb := hle b (by simp)
      have hbc := List.rel_of_pairwise_cons hrest hc
      omega

namespace Site

variable {text : String}

/-- The sites at and below one are placed in a text. -/
def IsPlaced (text : String) (s : Site) : Prop := ∀ v ∈ s :: s.below, v.node.IsPlaced text

theorem IsPlaced.self {s : Site} (h : s.IsPlaced text) : s.node.IsPlaced text := h s List.mem_cons_self

theorem IsPlaced.of_mem {s v : Site} (h : s.IsPlaced text) (hv : v ∈ s :: s.below) : v.IsPlaced text := by
  intro u hu
  rcases List.mem_cons.1 hv with rfl | hv
  · exact h u hu
  · rcases List.mem_cons.1 hu with rfl | hu
    · exact h u (List.mem_cons_of_mem s hv)
    · exact h u (List.mem_cons_of_mem s (mem_below_trans hv hu))

theorem IsPlaced.below {s v : Site} (h : s.IsPlaced text) (hv : v ∈ s.below) : v.IsPlaced text :=
  h.of_mem (List.mem_cons_of_mem s hv)

/-- The range of the one lies within that of the other. -/
def Within (v s : Site) : Prop :=
  s.node.label.start ≤ v.node.label.start ∧ v.node.label.stop ≤ s.node.label.stop

theorem within_of_below {s v : Site} (h : s.IsPlaced text) (hv : v ∈ s.below) : v.Within s := by
  induction hv using below_induction with
  | child v hv => exact h.self.inside _ (node_mem_of_mem_children hv)
  | deeper u v hu hv ih =>
    have hchild := (h.below hu).self.inside _ (node_mem_of_mem_children hv)
    exact ⟨Nat.le_trans ih.1 hchild.1, Nat.le_trans hchild.2 ih.2⟩

theorem within_of_mem {s v : Site} (h : s.IsPlaced text) (hv : v ∈ s :: s.below) : v.Within s := by
  rcases List.mem_cons.1 hv with rfl | hv
  · exact ⟨Nat.le_refl _, Nat.le_refl _⟩
  · exact within_of_below h hv

theorem pairwise_children {s : Site} (h : s.IsPlaced text) :
    s.children.Pairwise fun a b => a.node.label.stop ≤ b.node.label.start := by
  have hnodes := Node.pairwise_of_isChain (fun n hn => ?_) h.self.inOrder
  · rwa [← map_node_children, List.pairwise_map] at hnodes
  · rw [← map_node_children] at hn
    obtain ⟨c, hc, rfl⟩ := List.mem_map.1 hn
    exact (h.below (mem_below_of_mem_children hc)).self.start_le_stop

/-- **Sites start no earlier than those before them in pre-order.** -/
theorem pairwise_start {s : Site} (h : s.IsPlaced text) :
    (s :: s.below).Pairwise fun a b => a.node.label.start ≤ b.node.label.start := by
  induction s using children_induction with
  | step s ih =>
    refine List.Pairwise.cons (fun v hv => (within_of_below h hv).1) ?_
    rw [below_eq, List.pairwise_flatMap]
    have hchild : ∀ c ∈ s.children, c.IsPlaced text := fun c hc => h.below (mem_below_of_mem_children hc)
    refine ⟨fun c hc => ih c hc (hchild c hc), (pairwise_children h).imp_of_mem ?_⟩
    intro a b ha hb hab v hv w hw
    have hv' : v.node.label.start ≤ v.node.label.stop := (hchild a ha v hv).start_le_stop
    have hva := (within_of_mem (hchild a ha) hv).2
    have hwb := (within_of_mem (hchild b hb) hw).1
    omega

end Site

/-- The tree is one of the text, and every node in it is placed there. -/
structure Tree.IsPlaced (t : Tree) (text : String) : Prop where
  source : t.source = .ofString text
  nodes : ∀ s, t.Holds s → s.node.IsPlaced text

theorem Tree.IsPlaced.root {t : Tree} {text : String} {n : Node} (h : t.IsPlaced text) (hr : t.root = some n) :
    (Site.root n).IsPlaced text := fun v hv => h.nodes v ((t.holds_iff hr).2 hv)

end Cognitive
