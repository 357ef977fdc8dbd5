import HumanoidCore.Proofs.JsonPositions

namespace HumanoidCore.Documents
open Lib

section Find
variable {wanted : Char} {text : Text} {start stop : Nat}

theorem find_some (h : findFrom wanted text start = some stop) :
    stop < text.length ∧ wanted ∉ (text.drop start).take (stop - start) ∧
      text.drop start = (text.drop start).take (stop - start) ++ wanted :: text.drop (stop + 1) := by
  obtain ⟨offset, hoffset, rfl⟩ := Option.map_eq_some_iff.mp h
  obtain ⟨hlt, hfound, hbefore⟩ := List.findIdx?_eq_some_iff_getElem.mp hoffset
  rw [List.length_drop] at hlt
  rw [Nat.add_sub_cancel_left]
  refine ⟨by omega, fun hmem => ?_, ?_⟩
  · obtain ⟨k, hk, he⟩ := List.getElem_of_mem hmem
    rw [List.length_take] at hk
    have := hbefore k (by omega)
    rw [List.getElem_take] at he
    simp [he] at this
  · have hdrop := List.take_append_drop offset (text.drop start)
    have hnext : (text.drop start).drop offset = wanted :: text.drop (start + offset + 1) := by
      rw [List.drop_drop, List.drop_eq_getElem_cons (by omega)]
      have hitem : text[start + offset] = wanted := by simpa using hfound
      rw [hitem]
    rw [← hnext, hdrop]

theorem find_none (h : findFrom wanted text start = none) : wanted ∉ text.drop start := by
  have hnone := Option.map_eq_none_iff.mp h
  rw [List.findIdx?_eq_none_iff] at hnone
  intro hmem
  simpa using hnone wanted hmem

/-- What stands before the first of them, and from it on. -/
theorem find_while (h : findFrom wanted text 0 = some stop) :
    text.takeWhile (· ≠ wanted) = text.take stop ∧
      text.dropWhile (· ≠ wanted) = wanted :: text.drop (stop + 1) := by
  obtain ⟨-, hfree, hsplit⟩ := find_some h
  rw [List.drop_zero, Nat.sub_zero] at hfree hsplit
  have hbefore : ∀ c ∈ text.take stop, decide (c ≠ wanted) = true := fun c hc =>
    decide_eq_true fun he => hfree (he ▸ hc)
  constructor
  · conv => lhs; rw [hsplit]
    rw [List.takeWhile_append_of_pos hbefore, List.takeWhile_cons_of_neg (by simp),
      List.append_nil]
  · conv => lhs; rw [hsplit]
    rw [List.dropWhile_append_of_pos hbefore, List.dropWhile_cons_of_neg (by simp)]

end Find

section Pieces
variable {β : Type} {round round' : Nat → Text → Reading (Option β)} {document : Text}

/-- The rounds over the lines of a document, whose numbers go up. -/
def readPieces (round : Nat → Text → Reading (Option β)) (number : Nat) :
    List Text → Reading (List β)
  | [] => .ok []
  | piece :: pieces => do
    let line ← round number piece
    let lines ← readPieces round (number + 1) pieces
    return line.toList ++ lines

/-- The loop over the document goes through its lines. -/
theorem lines_alike
    (hround : ∀ number piece, Matches IsParseError (· = ·) (round number piece) (round' number piece))
    (number start : Nat) (h : start ≤ document.length) :
    Matches IsParseError (· = ·) (readPieces round number ((document.drop start).splitOn '\n'))
      (linesFrom round' document number start) := by
  induction number, start using linesFrom.induct document with
  | case1 number start hle hnone =>
    have hfree := find_none hnone
    have hsplit : (document.drop start).splitOn '\n' = [document.drop start] :=
      List.splitOn_eq_singleton hfree
    rw [hsplit, linesFrom, if_pos hle]
    split
    case h_1 =>
      rw [substr_ok hle, ok_bind, List.take_of_length_le (by simp)]
      refine (hround number _).bind fun line line' he => ?_
      rw [he]
      exact .ok _ _ (List.append_nil _)
    case h_2 stop hsome =>
      rw [hnone] at hsome
      cases hsome
  | case2 number start hle stop hsome ih =>
    obtain ⟨hlt, hfree, hdrop⟩ := find_some hsome
    have hsplit : (document.drop start).splitOn '\n' =
        (document.drop start).take (stop - start) :: (document.drop (stop + 1)).splitOn '\n' := by
      conv => lhs; rw [hdrop]
      exact List.splitOn_append_cons_self_of_not_mem hfree _
    rw [hsplit, linesFrom, if_pos hle]
    split
    case h_1 hnone =>
      rw [hnone] at hsome
      cases hsome
    case h_2 stop' hsome' =>
      obtain rfl : stop = stop' := Option.some.inj (hsome.symm.trans hsome')
      rw [substr_ok hle, ok_bind, readPieces]
      refine (hround number _).bind fun line line' he => ?_
      rw [he]
      refine (ih hlt).bind fun lines lines' he' => ?_
      rw [he']
      exact .ok _ _ rfl
  | case3 number start hgt => exact absurd h hgt

end Pieces

end HumanoidCore.Documents
