import Mathlib.Data.List.DropRight
import UtilityCss.Text.Octets

/-!
What ASCII octets are to a reader of UTF-8. They are characters by themselves and parts of no other,
and what comes in front of one reads as it would at the end. So looking for ASCII characters gives
the same among octets and among the characters they are read as, also where the octets are not
UTF-8.
-/
namespace UtilityCss.Octets

section Ascii
variable {a : UInt8} (ascii : a.toNat < 0x80)
include ascii

theorem within_ascii {low : Nat} (above : 0x80 ≤ low) (high : Nat) : within low high a = false := by
  have below : ¬low ≤ a.toNat := by omega
  simp [within, below]

theorem isTail_ascii : isTail a = false :=
  within_ascii ascii (by omega) _

theorem isSecond_ascii (first : UInt8) : isSecond first a = false := by
  simp only [isSecond, isTail_ascii ascii]
  repeat' split
  all_goals first | rfl | exact within_ascii ascii (by omega) _

theorem piece_ascii (rest : Octets) : piece a rest = (some (Char.ofNat a.toNat), 0) := by
  simp [piece.eq_def, ascii]

/-- An octet in front of an ASCII octet is read as if it were the last one. -/
theorem piece_append (b : UInt8) (v w : Octets) : piece b (v ++ a :: w) = piece b v := by
  have tail := isTail_ascii ascii
  have second := isSecond_ascii ascii b
  match v with
  | [] => rcases w with _ | ⟨x, _ | ⟨y, w⟩⟩ <;> simp [piece, tail, second]
  | [s] =>
      cases fits : isSecond b s with
      | false | true => rcases w with _ | ⟨x, w⟩ <;> simp [piece, tail, fits]
  | [s, t] =>
      cases fits : isSecond b s with
      | false => simp [piece, fits]
      | true => cases more : isTail t <;> simp [piece, tail, fits, more]
  | s :: t :: u :: v => simp [piece]

end Ascii

theorem piece_le (b : UInt8) (rest : Octets) : (piece b rest).2 ≤ rest.length := by
  match rest with
  | [] | [s] | [s, t] | s :: t :: u :: rest =>
      simp only [piece, List.length_cons, List.length_nil]
      repeat' split
      all_goals omega

/-- Characters that are no ASCII character but NUL, which stands for every value that is no
character. -/
def Foreign (c : Char) : Prop :=
  0x80 ≤ c.toNat ∨ c = '\x00'

theorem foreign_ofNat {n : Nat} (high : 0x80 ≤ n) : Foreign (Char.ofNat n) := by
  by_cases valid : n.isValidChar
  · have self : Char.ofNat n = Char.ofNatAux n valid := dif_pos valid
    rw [self]
    exact .inl high
  · have none : Char.ofNat n = '\x00' := dif_neg valid
    exact .inr none

theorem within_eq {low high : Nat} {b : UInt8} :
    within low high b = true ↔ low ≤ b.toNat ∧ b.toNat ≤ high := by
  simp [within]

/-- The second octet keeps characters of three or four octets from being written with more octets
than they need. -/
theorem lead_of_isSecond {b s : UInt8} (second : isSecond b s = true) :
    (within 0xE0 0xEF b = true → 2 ≤ b.toNat % 16 * 64 + s.toNat % 64) ∧
      (within 0xF0 0xF4 b = true → 1 ≤ b.toNat % 8 * 64 + s.toNat % 64) := by
  simp only [isSecond, isTail, ← UInt8.toNat_inj, UInt8.reduceToNat] at second
  simp only [within_eq]
  repeat' split at second
  all_goals
    rw [within_eq] at second
    omega

/-- What a character is joined from, by the number of its octets. -/
inductive Begins (b : UInt8) : Char → Prop
  | one : b.toNat < 0x80 → Begins b (Char.ofNat b.toNat)
  | two (t : UInt8) : within 0xC2 0xDF b = true → Begins b (join (b.toNat % 32) [t])
  | three (s t : UInt8) : within 0xE0 0xEF b = true → isSecond b s = true →
      Begins b (join (b.toNat % 16) [s, t])
  | four (s t u : UInt8) : within 0xF0 0xF4 b = true → isSecond b s = true →
      Begins b (join (b.toNat % 8) [s, t, u])

theorem begins_of_piece {b : UInt8} {rest : Octets} {c : Char} (h : (piece b rest).1 = some c) :
    Begins b c := by
  rw [piece.eq_def] at h
  split at h
  next ascii =>
    cases h
    exact .one ascii
  split at h
  next lead =>
    repeat' split at h
    all_goals cases h
    exact .two _ lead
  split at h
  next lead =>
    repeat' split at h
    all_goals cases h
    next second _ => exact .three _ _ lead (by simpa using second)
  split at h
  next lead =>
    repeat' split at h
    all_goals cases h
    next second _ _ => exact .four _ _ _ lead (by simpa using second)
  cases h

/-- An octet that is no ASCII octet begins no ASCII character. -/
theorem foreign_piece {b : UInt8} (high : 0x80 ≤ b.toNat) (rest : Octets) :
    Foreign ((piece b rest).1.getD '\uFFFD') := by
  cases read : (piece b rest).1 with
  | none => exact .inl (by decide)
  | some c =>
      cases begins_of_piece read with
      | one low => omega
      | two t lead =>
          rw [within_eq] at lead
          exact foreign_ofNat (by simp only [List.foldl_cons, List.foldl_nil]; omega)
      | three s t lead second =>
          have := (lead_of_isSecond second).1 lead
          exact foreign_ofNat (by simp only [List.foldl_cons, List.foldl_nil]; omega)
      | four s t u lead second =>
          have := (lead_of_isSecond second).2 lead
          exact foreign_ofNat (by simp only [List.foldl_cons, List.foldl_nil]; omega)

theorem piecesFrom_eq (found : List (Option Char)) (octets : Octets) :
    piecesFrom found octets = found.reverse ++ pieces octets := by
  match octets with
  | [] => rw [pieces, piecesFrom, piecesFrom, List.reverse_nil, List.append_nil]
  | b :: rest =>
      have next (found : List (Option Char)) :=
        piecesFrom_eq ((piece b rest).1 :: found) (rest.drop (piece b rest).2)
      have whole :
          pieces (b :: rest) = (piece b rest).1 :: pieces (rest.drop (piece b rest).2) := by
        rw [pieces, piecesFrom, next]
        rfl
      rw [piecesFrom, next, whole, List.reverse_cons, List.append_assoc, List.singleton_append]
termination_by octets.length
decreasing_by
  rw [List.length_drop, List.length_cons]
  omega

theorem lenientText_nil : lenientText [] = [] := by
  rw [lenientText, pieces, piecesFrom]
  rfl

theorem lenientText_cons (b : UInt8) (rest : Octets) :
    lenientText (b :: rest) =
      (piece b rest).1.getD '\uFFFD' :: lenientText (rest.drop (piece b rest).2) := by
  rw [lenientText, pieces, piecesFrom, piecesFrom_eq]
  rfl

theorem eq_nil_of_lenientText {octets : Octets} (h : lenientText octets = []) : octets = [] := by
  cases octets with
  | nil => rfl
  | cons b rest =>
      rw [lenientText_cons] at h
      cases h

theorem lenientText_ascii {a : UInt8} (ascii : a.toNat < 0x80) (rest : Octets) :
    lenientText (a :: rest) = Char.ofNat a.toNat :: lenientText rest := by
  rw [lenientText_cons, piece_ascii ascii]
  rfl

/-- An ASCII octet parts what is read before it from what is read after it. -/
theorem lenientText_append {a : UInt8} (ascii : a.toNat < 0x80) (v w : Octets) :
    lenientText (v ++ a :: w) = lenientText v ++ Char.ofNat a.toNat :: lenientText w := by
  match v with
  | [] => rw [List.nil_append, lenientText_ascii ascii, lenientText_nil, List.nil_append]
  | b :: v =>
      rw [List.cons_append, lenientText_cons, piece_append ascii,
        List.drop_append_of_le_length (piece_le b v), lenientText_append ascii (v.drop _) w,
        lenientText_cons b v, List.cons_append]
termination_by v.length
decreasing_by
  rw [List.length_drop, List.length_cons]
  omega

theorem piece_two {b t : UInt8} (lead : within 0xC2 0xDF b = true) (tail : isTail t = true)
    (rest : Octets) : piece b (t :: rest) = (some (join (b.toNat % 32) [t]), 1) := by
  have high : ¬b.toNat < 0x80 := by
    rw [within_eq] at lead
    omega
  simp [piece, high, lead, tail]

theorem piece_three {b s t : UInt8} (lead : within 0xE0 0xEF b = true)
    (second : isSecond b s = true) (tail : isTail t = true) (rest : Octets) :
    piece b (s :: t :: rest) = (some (join (b.toNat % 16) [s, t]), 2) := by
  have high := within_eq.mp lead
  have two : within 0xC2 0xDF b = false := by
    rw [← Bool.not_eq_true, within_eq]
    omega
  simp [piece, show ¬b.toNat < 0x80 by omega, two, lead, second, tail]

theorem piece_four {b s t u : UInt8} (lead : within 0xF0 0xF4 b = true)
    (second : isSecond b s = true) (third : isTail t = true) (tail : isTail u = true)
    (rest : Octets) :
    piece b (s :: t :: u :: rest) = (some (join (b.toNat % 8) [s, t, u]), 3) := by
  have high := within_eq.mp lead
  have fewer : within 0xC2 0xDF b = false ∧ within 0xE0 0xEF b = false := by
    simp only [← Bool.not_eq_true, within_eq]
    omega
  simp [piece, show ¬b.toNat < 0x80 by omega, fewer, lead, second, third, tail]

theorem isSecond_of_isTail {b s : UInt8} (tail : isTail s = true)
    (least : ¬(b.toNat = 0xE0 ∧ s.toNat < 0xA0 ∨ b.toNat = 0xF0 ∧ s.toNat < 0x90))
    (most : ¬(b.toNat = 0xED ∧ 0x9F < s.toNat ∨ b.toNat = 0xF4 ∧ 0x8F < s.toNat)) :
    isSecond b s = true := by
  rw [isTail, within_eq] at tail
  simp only [isSecond, isTail, ← UInt8.toNat_inj, UInt8.reduceToNat]
  repeat' split
  all_goals
    rw [within_eq]
    omega

/-- The octets of a character are read as one piece. -/
theorem piece_encode (c : Char) (rest : Octets) :
    ∃ b tails, String.utf8EncodeChar c = b :: tails ∧
      piece b (tails ++ rest) = (some c, tails.length) := by
  have valid : c.toNat < 0xD800 ∨ 0xDFFF < c.toNat ∧ c.toNat < 0x110000 := c.valid
  have octet {n : Nat} (h : n < 0x100) : (UInt8.ofNat n).toNat = n := UInt8.toNat_ofNat_of_lt h
  have lead {low high n : Nat} (h : low ≤ n ∧ n ≤ high) (small : high < 0x100) :
      within low high (.ofNat n) = true := by
    rwa [within_eq, octet (by omega)]
  have tail (n : Nat) : isTail (.ofNat (n % 64 + 0x80)) = true := lead (by omega) (by omega)
  have joined {lead : Nat} {tails : Octets}
      (h : tails.foldl (fun n b => n * 64 + b.toNat % 64) lead = c.toNat) :
      join lead tails = c := by
    rw [join, h, Char.ofNat_toNat]
  simp only [String.utf8EncodeChar, ← show c.toNat = c.val.toNat from rfl]
  split
  · refine ⟨_, _, rfl, ?_⟩
    rw [List.nil_append, piece_ascii (by rw [octet] <;> omega), octet (by omega), Char.ofNat_toNat]
    rfl
  split
  · refine ⟨_, _, rfl, (piece_two (lead (by omega) (by omega)) (tail _) rest).trans ?_⟩
    rw [joined]
    · rfl
    · simp (disch := omega) only [List.foldl_cons, List.foldl_nil, octet]
      omega
  split
  · have second := isSecond_of_isTail (b := .ofNat (c.toNat / 4096 % 16 + 224))
      (tail (c.toNat / 64))
      (by simp (disch := omega) only [octet]; omega) (by simp (disch := omega) only [octet]; omega)
    refine ⟨_, _, rfl, (piece_three (lead (by omega) (by omega)) second (tail _) rest).trans ?_⟩
    rw [joined]
    · rfl
    · simp (disch := omega) only [List.foldl_cons, List.foldl_nil, octet]
      omega
  · have second := isSecond_of_isTail (b := .ofNat (c.toNat / 262144 % 8 + 240))
      (tail (c.toNat / 4096))
      (by simp (disch := omega) only [octet]; omega) (by simp (disch := omega) only [octet]; omega)
    refine ⟨_, _, rfl,
      (piece_four (lead (by omega) (by omega)) second (tail _) (tail _) rest).trans ?_⟩
    rw [joined]
    · rfl
    · simp (disch := omega) only [List.foldl_cons, List.foldl_nil, octet]
      omega

/-- Reading undoes writing. -/
theorem lenientText_ofText (text : Text) : lenientText (ofText text) = text := by
  induction text with
  | nil => exact lenientText_nil
  | cons c rest ih =>
      obtain ⟨b, tails, written, read⟩ := piece_encode c (ofText rest)
      have whole : ofText (c :: rest) = b :: (tails ++ ofText rest) := by
        rw [ofText, List.flatMap_cons, written]
        rfl
      rw [whole, lenientText_cons, read, List.drop_left, ih]
      rfl

/-- Octets and characters that stand for each other, all of them ASCII. -/
structure Matches (p : UInt8 → Bool) (q : Char → Bool) : Prop where
  ascii : ∀ b : UInt8, b.toNat < 0x80 → q (Char.ofNat b.toNat) = p b
  octets : ∀ b, p b = true → b.toNat < 0x80
  chars : ∀ c, Foreign c → q c = false

namespace Matches
variable {p : UInt8 → Bool} {q : Char → Bool} (same : Matches p q)
include same

theorem first (b : UInt8) (rest : Octets) : q ((piece b rest).1.getD '\uFFFD') = p b := by
  by_cases ascii : b.toNat < 0x80
  · rw [piece_ascii ascii]
    exact same.ascii b ascii
  · rw [same.chars _ (foreign_piece (Nat.not_lt.mp ascii) rest)]
    exact (Bool.eq_false_iff.mpr fun held => ascii (same.octets b held)).symm

theorem unmatched {octets : Octets} (none : ∀ b ∈ octets, p b = false) :
    ∀ c ∈ lenientText octets, q c = false := by
  match octets with
  | [] => simp [lenientText_nil]
  | b :: rest =>
      obtain ⟨first, others⟩ := List.forall_mem_cons.mp none
      rw [lenientText_cons, List.forall_mem_cons]
      refine ⟨(same.first b rest).trans first, ?_⟩
      exact unmatched fun b inside => others b (List.mem_of_mem_drop inside)
termination_by octets.length
decreasing_by
  rw [List.length_drop, List.length_cons]
  omega

theorem dropWhile (octets : Octets) :
    (lenientText octets).dropWhile q = lenientText (octets.dropWhile p) := by
  induction octets with
  | nil => simp [lenientText_nil]
  | cons b rest ih =>
      cases held : p b with
      | true =>
          have ascii := same.octets b held
          have matched := (same.ascii b ascii).trans held
          rw [lenientText_ascii ascii, List.dropWhile_cons_of_pos matched, ih,
            List.dropWhile_cons_of_pos held]
      | false =>
          have matched := (same.first b rest).trans held
          rw [List.dropWhile_cons_of_neg (by simp [held]), lenientText_cons,
            List.dropWhile_cons_of_neg (by simp [matched])]

/-- An octet that is no ASCII octet may be read in one piece with those before it, so the last one
is followed from the first. -/
theorem last {octets : Octets} (ends : ∀ b ∈ octets.getLast?, p b = false) :
    ∀ c ∈ (lenientText octets).getLast?, q c = false := by
  match octets with
  | [] => simp [lenientText_nil]
  | b :: rest =>
      rw [lenientText_cons]
      intro c found
      rw [List.getLast?_cons] at found
      cases ending : (lenientText (rest.drop (piece b rest).2)).getLast? with
      | none =>
          rw [ending] at found
          cases found
          rw [Option.getD_none, same.first]
          refine Bool.eq_false_iff.mpr fun held => ?_
          have alone : rest = [] := by
            have := eq_nil_of_lenientText (List.getLast?_eq_none_iff.mp ending)
            rwa [piece_ascii (same.octets b held)] at this
          simp [alone, held] at ends
      | some d =>
          rw [ending] at found
          cases found
          refine last (fun e inside => ends e ?_) _ ending
          rw [List.getLast?_cons, ← List.take_append_drop (piece b rest).2 rest,
            List.getLast?_append, inside]
          rfl
termination_by octets.length
decreasing_by
  rw [List.length_drop, List.length_cons]
  omega

theorem rdropWhile (octets : Octets) :
    (lenientText octets).rdropWhile q = lenientText (octets.rdropWhile p) := by
  induction octets using List.reverseRecOn with
  | nil => simp [lenientText_nil]
  | append_singleton front b ih =>
      cases held : p b with
      | true =>
          have ascii := same.octets b held
          have matched := (same.ascii b ascii).trans held
          rw [lenientText_append ascii, lenientText_nil, List.rdropWhile_concat_pos _ _ _ matched,
            ih, List.rdropWhile_concat_pos _ _ _ held]
      | false =>
          rw [List.rdropWhile_concat_neg _ _ _ (by simp [held])]
          have ends : ∀ c ∈ (front ++ [b]).getLast?, p c = false := by simp [held]
          refine List.rdropWhile_eq_self_iff.mpr fun some => ?_
          have := same.last ends _ (List.getLast?_eq_some_getLast some)
          simp [this]

theorem splitOnP (octets : Octets) :
    (lenientText octets).splitOnP q = (octets.splitOnP p).map lenientText := by
  by_cases none : ∀ b ∈ octets, p b = false
  · rw [List.splitOnP_eq_singleton none, List.splitOnP_eq_singleton (same.unmatched none)]
    rfl
  · simp only [not_forall, Bool.not_eq_false] at none
    obtain ⟨a, inside, held⟩ := none
    obtain ⟨v, w, whole⟩ := List.append_of_mem inside
    have ascii := same.octets a held
    have matched := (same.ascii a ascii).trans held
    rw [whole, lenientText_append ascii, List.splitOnP_append_cons _ _ matched, splitOnP v,
      splitOnP w, List.splitOnP_append_cons _ _ held, List.map_append]
termination_by octets.length
decreasing_by
  all_goals
    rw [whole, List.length_append, List.length_cons]
    omega

end Matches

end UtilityCss.Octets
