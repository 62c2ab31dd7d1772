import Cognitive.Proofs.Outcome
import Cognitive.Zip.Content
/-!
# How much an entry gives

The content that is read of an entry is at most as long as the directory says (`Entry.size_content_le`), whatever its
packed data unpack to, because data are cut to that size before they are checked.  To have archives at hand, those of
empty files are written here too (`emptyFiles`).
-/
namespace Cognitive
namespace Zip

theorem size_settle_le {e : Entry} {data content : ByteArray} {complete : Bool}
    (h : settle e data complete = .ok content) : content.size ≤ e.size := by
  have hcut : (data.extract 0 (min e.size data.size)).size ≤ e.size := by
    rw [ByteArray.size_extract]
    omega
  unfold settle at h
  simp only at h
  split at h
  · split at h
    · cases h
      exact hcut
    · cases h
  · cases h

/-- **The content of an entry is no longer than the directory says.** -/
theorem Entry.size_content_le {e : Entry} {bytes content : ByteArray} {bound : Int}
    (h : e.content bytes bound = .ok content) : content.size ≤ e.size := by
  obtain ⟨start, -, h⟩ := Outcome.bind_eq_ok_iff.1 h
  split at h
  case h_1 =>
    obtain ⟨data, -, h⟩ := Outcome.bind_eq_ok_iff.1 h
    exact size_settle_le h
  case h_5 => cases h
  -- every other way of packing gives data to settle, or a fault of its own
  all_goals
    obtain ⟨⟨packed, all⟩, -, h⟩ := Outcome.bind_eq_ok_iff.1 h
    simp only at h
    split at h
    · exact size_settle_le h
    · cases h

/-! ## Archives of empty files -/

/-- A number as some bytes, lowest byte first. -/
def numberBytes : (width n : Nat) → List UInt8
  | 0, _ => []
  | w + 1, n => n.toUInt8 :: numberBytes w (n / 256)

def emptyHeader (name : String) : List UInt8 :=
  numberBytes 4 (mark 3 4) ++ List.replicate 22 0 ++ numberBytes 2 name.utf8ByteSize ++ [0, 0] ++ name.toUTF8.toList

def emptyListing (version offset : Nat) (name : String) : List UInt8 :=
  numberBytes 4 (mark 1 2) ++ [0, 0] ++ numberBytes 2 version ++ List.replicate 20 0 ++
    numberBytes 2 name.utf8ByteSize ++ List.replicate 12 0 ++ numberBytes 4 offset ++ name.toUTF8.toList

/-- An archive of empty files with some names, for readers from a version on. -/
def emptyFiles (version : Nat) (names : List String) : ByteArray :=
  let (headers, listings) := names.foldl (fun (headers, listings) name =>
    (headers ++ emptyHeader name, listings ++ emptyListing version headers.length name)) ([], [])
  ⟨(headers ++ listings ++ numberBytes 4 (mark 5 6) ++ List.replicate 8 0 ++ numberBytes 4 listings.length ++
    numberBytes 4 headers.length ++ [0, 0]).toArray⟩

end Zip
end Cognitive
