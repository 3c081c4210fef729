import UtilityCss.Minify
import UtilityCss.Proofs.Token.Boundary

/-!
What minifying leaves of a text. It goes by octets and looks one octet ahead; here it goes by
characters and remembers what it has seen. Only in plain text a semicolon can be dropped, so strings
and comments that begin there are kept whole.
-/
namespace UtilityCss

namespace Octets

/-- The one octet of an ASCII character. -/
def ofChar (c : Char) : UInt8 :=
  .ofNat c.toNat

theorem toNat_ofChar {c : Char} (ascii : c.toNat < 0x80) : (ofChar c).toNat = c.toNat := by
  rw [ofChar, UInt8.toNat_ofNat', Nat.mod_eq_of_lt (by omega)]

theorem ofChar_inj {c d : Char} (hc : c.toNat < 0x80) (hd : d.toNat < 0x80) :
    ofChar c = ofChar d ↔ c = d := by
  constructor
  · intro same
    have values := congrArg UInt8.toNat same
    rw [toNat_ofChar hc, toNat_ofChar hd] at values
    exact Char.toNat_inj.mp values
  · exact congrArg ofChar

theorem encode_ascii {c : Char} (ascii : c.toNat < 0x80) :
    String.utf8EncodeChar c = [ofChar c] := by
  have small : c.val.toNat ≤ 127 := Nat.le_of_lt_succ ascii
  simp only [String.utf8EncodeChar, if_pos small]
  rfl

/-- The octets of any other character are none of an ASCII character. -/
theorem encode_other {c : Char} (other : ¬c.toNat < 0x80) :
    String.utf8EncodeChar c ≠ [] ∧ ∀ b ∈ String.utf8EncodeChar c, 0x80 ≤ b.toNat := by
  have large : ¬c.val.toNat ≤ 127 := fun small => other (Nat.lt_succ_of_le small)
  simp only [String.utf8EncodeChar, if_neg large]
  repeat' split
  all_goals
    refine ⟨by simp, fun b inside => ?_⟩
    simp only [List.mem_cons, List.not_mem_nil, or_false] at inside
    rcases inside with rfl | rfl | rfl | rfl
    all_goals
      rw [UInt8.toNat_ofNat']
      omega

/-- Octets begin with one of an ASCII character where their text begins with the character. -/
theorem ofText_eq_cons {d : Char} (ascii : d.toNat < 0x80) {text : Text} {octets : Octets}
    (h : ofText text = ofChar d :: octets) : ∃ rest, text = d :: rest := by
  cases text with
  | nil => cases h
  | cons c rest =>
      rw [ofText_cons] at h
      by_cases small : c.toNat < 0x80
      · rw [encode_ascii small] at h
        have same := (ofChar_inj small ascii).mp (List.cons.inj h).1
        exact ⟨rest, congrArg (· :: rest) same⟩
      · obtain ⟨some, high⟩ := encode_other small
        cases encoded : String.utf8EncodeChar c with
        | nil => exact absurd encoded some
        | cons b more =>
            rw [encoded] at h
            have first := high b (by rw [encoded]; exact List.mem_cons_self)
            rw [(List.cons.inj h).1, toNat_ofChar ascii] at first
            omega

end Octets

namespace Minify
open Octets Lexer

/-- In front of `rest` a text is copied, which leads from one context into another. -/
def Copies (context : Context) (text : Text) (after : Context) (rest : Text) : Prop :=
  ∀ found, minifyFrom found context (ofText (text ++ rest)) =
    minifyFrom ((ofText text).reverse ++ found) after (ofText rest)

theorem copies_ascii {context after : Context} {c : Char} {rest : Text} (ascii : c.toNat < 0x80)
    (h : ∀ found, minifyFrom found context (ofChar c :: ofText rest) =
      minifyFrom (ofChar c :: found) after (ofText rest)) : Copies context [c] after rest := by
  intro found
  rw [List.singleton_append, ofText_cons, ofText_cons, encode_ascii ascii]
  exact h found

/-- An octet of no ASCII character is copied in every context. -/
theorem minifyFrom_high {b : UInt8} (high : 0x80 ≤ b.toNat) (found : Octets) (context : Context)
    (octets : Octets) :
    (∀ mark, context = .quoted mark → mark.toNat < 0x80) →
    minifyFrom found context (b :: octets) = minifyFrom (b :: found) context octets := by
  intro low
  have differs (d : UInt8) (small : d.toNat < 0x80) : b ≠ d := by
    rintro rfl
    omega
  cases context with
  | plain =>
      have mark : isMark b = false := by
        simp [isMark, differs 0x22 (by decide), differs 0x27 (by decide)]
      rw [minifyFrom.eq_7 _ _ _ fun _ same => absurd same (differs _ (by decide))]
      simp [mark, differs 0x3B (by decide)]
  | quoted mark =>
      rw [minifyFrom.eq_5 _ _ _ _ fun _ _ same => absurd same (differs _ (by decide)),
        if_neg (differs mark (low mark rfl))]
  | comment => rw [minifyFrom.eq_3 _ _ _ fun _ same => absurd same (differs _ (by decide))]

theorem minifyFrom_highs {high : Octets} (all : ∀ b ∈ high, 0x80 ≤ b.toNat) (found : Octets)
    (context : Context) (low : ∀ mark, context = .quoted mark → mark.toNat < 0x80)
    (octets : Octets) : minifyFrom found context (high ++ octets) =
      minifyFrom (high.reverse ++ found) context octets := by
  induction high generalizing found with
  | nil => rfl
  | cons b high ih =>
      rw [List.forall_mem_cons] at all
      rw [List.cons_append, minifyFrom_high all.1 _ _ _ low, ih all.2]
      simp

theorem copies_other {context : Context} {c : Char} (other : ¬c.toNat < 0x80)
    (low : ∀ mark, context = .quoted mark → mark.toNat < 0x80) (rest : Text) :
    Copies context [c] context rest := by
  intro found
  rw [List.singleton_append, ofText_cons, ofText_cons,
    minifyFrom_highs (encode_other other).2 _ _ low, show ofText [] = [] from rfl, List.append_nil]

/-- Whether minifying takes a character for no more than it is, where `rest` comes after it. -/
def passes (c : Char) (rest : Text) : Bool :=
  !(c == '\x22' || c == '\x27' || ['/', '*'].isPrefixOf (c :: rest) ||
    [';', '\x7d'].isPrefixOf (c :: rest))

theorem passes_iff {c : Char} {rest : Text} :
    passes c rest = true ↔ (c ≠ '\x22' ∧ c ≠ '\x27') ∧ ¬['/', '*'] <+: c :: rest ∧
      ¬[';', '\x7d'] <+: c :: rest := by
  rw [← List.isPrefixOf_iff_prefix, ← List.isPrefixOf_iff_prefix, passes]
  generalize ['/', '*'].isPrefixOf (c :: rest) = comment
  generalize [';', '\x7d'].isPrefixOf (c :: rest) = closing
  simp [and_assoc]

theorem copies_plain {c : Char} {rest : Text} (h : passes c rest = true) :
    Copies .plain [c] .plain rest := by
  by_cases ascii : c.toNat < 0x80
  · obtain ⟨⟨double, single⟩, comment, closing⟩ := passes_iff.mp h
    have opens {first second : Char} (hc : ofChar c = ofChar first)
        (ascii₁ : first.toNat < 0x80) (ascii₂ : second.toNat < 0x80) {octets : Octets}
        (hr : ofText rest = ofChar second :: octets) : [first, second] <+: c :: rest := by
      obtain ⟨more, rfl⟩ := ofText_eq_cons ascii₂ hr
      exact ⟨more, by rw [(ofChar_inj ascii ascii₁).mp hc]; rfl⟩
    have mark : isMark (ofChar c) = false := by
      have first := mt (ofChar_inj ascii (d := '\x22') (by decide)).mp double
      have second := mt (ofChar_inj ascii (d := '\x27') (by decide)).mp single
      simp only [isMark, Bool.or_eq_false_iff, beq_eq_false_iff_ne]
      exact ⟨first, second⟩
    refine copies_ascii ascii fun found => ?_
    rw [minifyFrom.eq_7 _ _ _ fun _ first second =>
      comment (@opens '/' '*' first (by decide) (by decide) _ second), mark]
    simp only [Bool.false_eq_true, if_false]
    split
    next dropped =>
      rw [Bool.and_eq_true, decide_eq_true_iff, startsWith, beq_iff_eq] at dropped
      obtain ⟨octets, second⟩ := List.head?_eq_some_iff.mp dropped.2
      exact absurd (@opens ';' '\x7d' dropped.1 (by decide) (by decide) _ second) closing
    next => rfl
  · exact copies_other ascii (fun _ same => by cases same) rest

theorem copies_mark {mark : Char} (quote : mark = '\x22' ∨ mark = '\x27') (rest : Text) :
    Copies .plain [mark] (.quoted (ofChar mark)) rest := by
  obtain rfl | rfl := quote <;> exact fun _ => rfl

theorem copies_closing {mark : Char} (quote : mark = '\x22' ∨ mark = '\x27') (rest : Text) :
    Copies (.quoted (ofChar mark)) [mark] .plain rest := by
  obtain rfl | rfl := quote <;> exact fun _ => by simp; rfl

theorem copies_quoted {mark c : Char} (quote : mark = '\x22' ∨ mark = '\x27') (plain : c ≠ '\\')
    (going : c ≠ mark) (rest : Text) :
    Copies (.quoted (ofChar mark)) [c] (.quoted (ofChar mark)) rest := by
  have small : mark.toNat < 0x80 := by obtain rfl | rfl := quote <;> decide
  by_cases ascii : c.toNat < 0x80
  · refine copies_ascii ascii fun found => ?_
    have escape : ofChar c ≠ ofChar '\\' := mt (ofChar_inj ascii (by decide)).mp plain
    rw [minifyFrom.eq_5 _ _ _ _ fun _ _ same => absurd same escape,
      if_neg (mt (ofChar_inj ascii small).mp going)]
  · refine copies_other ascii (fun m same => ?_) rest
    cases same
    rw [toNat_ofChar small]
    exact small

theorem copies_escape {mark : Char} (quote : mark = '\x22' ∨ mark = '\x27') (c : Char)
    (rest : Text) :
    Copies (.quoted (ofChar mark)) ['\\', c] (.quoted (ofChar mark)) rest := by
  intro found
  have small : mark.toNat < 0x80 := by obtain rfl | rfl := quote <;> decide
  obtain ⟨some, high⟩ : String.utf8EncodeChar c ≠ [] ∧
      ∀ b ∈ (String.utf8EncodeChar c).drop 1, 0x80 ≤ b.toNat := by
    by_cases ascii : c.toNat < 0x80
    · rw [encode_ascii ascii]
      exact ⟨by simp, nofun⟩
    · obtain ⟨some, high⟩ := encode_other ascii
      exact ⟨some, fun b inside => high b (List.mem_of_mem_drop inside)⟩
  cases encoded : String.utf8EncodeChar c with
  | nil => exact absurd encoded some
  | cons b more =>
      have low (m : UInt8) (same : Context.quoted (ofChar mark) = .quoted m) : m.toNat < 0x80 := by
        cases same
        rw [toNat_ofChar small]
        exact small
      have text (t : Text) : ofText ('\\' :: c :: t) = 0x5C :: b :: (more ++ ofText t) := by
        rw [ofText_cons, ofText_cons, encoded]
        rfl
      have high : ∀ b ∈ more, 0x80 ≤ b.toNat := by rwa [encoded] at high
      rw [List.cons_append, List.singleton_append, text, text, minifyFrom,
        minifyFrom_highs high _ _ low]
      simp [ofText]

theorem copies_opening (rest : Text) : Copies .plain ['/', '*'] .comment rest :=
  fun _ => rfl

theorem copies_end (rest : Text) : Copies .comment ['*', '/'] .plain rest :=
  fun _ => rfl

theorem copies_comment {c : Char} {rest : Text} (going : ¬['*', '/'] <+: c :: rest) :
    Copies .comment [c] .comment rest := by
  by_cases ascii : c.toNat < 0x80
  · refine copies_ascii ascii fun found => ?_
    refine minifyFrom.eq_3 _ _ _ fun _ first second => going ?_
    obtain ⟨more, rfl⟩ := @ofText_eq_cons '/' (by decide) _ _ second
    exact ⟨more, by rw [(@ofChar_inj _ '*' ascii (by decide)).mp first]; rfl⟩
  · exact copies_other ascii (fun _ same => by cases same) rest

/-- What minifying writes of a text beyond what it has written so far. -/
def Leaves (context : Context) (text left : Text) : Prop :=
  ∀ found, minifyFrom found context (ofText text) = found.reverse ++ ofText left

theorem Copies.leaves {context after : Context} {text rest left : Text}
    (copied : Copies context text after rest) (h : Leaves after rest left) :
    Leaves context (text ++ rest) (text ++ left) := by
  intro found
  rw [copied, h, ofText_append, List.reverse_append, List.reverse_reverse, List.append_assoc]

theorem leaves_closing {rest left : Text} (h : Leaves .plain ('\x7d' :: rest) left) :
    Leaves .plain (';' :: '\x7d' :: rest) left :=
  h

abbrev Mark :=
  { c : Char // c = '\x22' ∨ c = '\x27' }

/-- Where minifying stands behind a character, which may belong to the next one. -/
inductive Place where
  | plain
  | slash
  | quoted (mark : Mark)
  | escaped (mark : Mark)
  | comment
  | star

namespace Place

def isPlain : Place → Bool
  | plain | slash => true
  | _ => false

/-- The place behind a character of plain text. -/
def behind (c : Char) : Place :=
  if quote : c = '\x22' ∨ c = '\x27' then quoted ⟨c, quote⟩
  else if c = '/' then slash
  else plain

def next : Place → Char → Place
  | plain, c => behind c
  | slash, c => if c = '*' then comment else behind c
  | quoted mark, c =>
    if c = '\\' then escaped mark
    else if c = mark then plain
    else quoted mark
  | escaped mark, _ => quoted mark
  | comment, c => if c = '*' then star else comment
  | star, c =>
    if c = '/' then plain
    else if c = '*' then star
    else comment

def after (place : Place) (text : Text) : Place :=
  text.foldl next place

/-- Whether a text begins with a semicolon to drop. -/
def drops (place : Place) (text : Text) : Bool :=
  place.isPlain && [';', '\x7d'].isPrefixOf text

/-- What minifying leaves of a text from a place on. -/
def minified : Place → Text → Text
  | _, [] => []
  | place, c :: rest =>
    if place.drops (c :: rest) then (place.next c).minified rest
    else c :: (place.next c).minified rest

/-- Whether minifying leaves all of a text, where `rest` comes after it. -/
def keeps : Place → Text → Text → Bool
  | _, [], _ => true
  | place, c :: text, rest =>
    !place.drops (c :: (text ++ rest)) && (place.next c).keeps text rest

def context : Place → Context
  | plain | slash => .plain
  | quoted mark | escaped mark => .quoted (ofChar mark)
  | comment | star => .comment

/-- The character that minifying would look at together with the next one. -/
def held : Place → Text
  | slash => ['/']
  | escaped _ => ['\\']
  | star => ['*']
  | _ => []

end Place

/-- From every place on, octets and characters leave the same of a text and of what is held. -/
def Agree (text : Text) : Prop :=
  ∀ place : Place, Leaves place.context (place.held ++ text) (place.held ++ place.minified text)

theorem behind_leaves (c : Char) {rest : Text} (h : Agree rest) :
    Leaves .plain (c :: rest) (Place.plain.minified (c :: rest)) := by
  by_cases quote : c = '\x22' ∨ c = '\x27'
  · have kept :
        Place.plain.minified (c :: rest) = c :: (Place.quoted ⟨c, quote⟩).minified rest := by
      obtain rfl | rfl := quote <;> rfl
    rw [kept]
    exact (copies_mark quote rest).leaves (h (.quoted ⟨c, quote⟩))
  by_cases slash : c = '/'
  · subst slash
    exact h .slash
  by_cases closing : [';', '\x7d'] <+: c :: rest
  · obtain ⟨rest, same⟩ := closing
    cases same
    exact leaves_closing (h .plain)
  · have passed : passes c rest = true :=
      passes_iff.mpr ⟨not_or.mp quote, fun ⟨_, same⟩ => slash (List.cons.inj same).1.symm, closing⟩
    have kept : Place.plain.minified (c :: rest) = c :: Place.plain.minified rest := by
      have stays : Place.plain.next c = .plain := by simp [Place.next, Place.behind, quote, slash]
      have going : Place.plain.drops (c :: rest) = false := by
        rw [← List.isPrefixOf_iff_prefix, Bool.not_eq_true] at closing
        simp only [Place.drops, closing, Bool.and_false]
      simp [Place.minified, stays, going]
    rw [kept]
    exact (copies_plain passed).leaves (h .plain)

theorem quoted_leaves (mark : Mark) (c : Char) {rest : Text} (h : Agree rest) :
    Leaves (.quoted (ofChar mark)) (c :: rest) ((Place.quoted mark).minified (c :: rest)) := by
  have kept (place : Place) (next : (Place.quoted mark).next c = place) :
      (Place.quoted mark).minified (c :: rest) = c :: place.minified rest := by
    rw [← next]
    rfl
  by_cases escape : c = '\\'
  · rw [kept (.escaped mark) (if_pos escape), escape]
    exact h (.escaped mark)
  by_cases closes : c = mark
  · rw [kept .plain ((if_neg escape).trans (if_pos closes)), closes]
    exact (copies_closing mark.2 rest).leaves (h .plain)
  · rw [kept (.quoted mark) ((if_neg escape).trans (if_neg closes))]
    exact (copies_quoted mark.2 escape closes rest).leaves (h (.quoted mark))

theorem comment_leaves (c : Char) {rest : Text} (h : Agree rest) :
    Leaves .comment (c :: rest) (Place.comment.minified (c :: rest)) := by
  have kept (place : Place) (next : Place.comment.next c = place) :
      Place.comment.minified (c :: rest) = c :: place.minified rest := by
    rw [← next]
    rfl
  by_cases star : c = '*'
  · rw [kept .star (if_pos star), star]
    exact h .star
  · have going : ¬['*', '/'] <+: c :: rest := fun ⟨_, same⟩ => star (List.cons.inj same).1.symm
    rw [kept .comment (if_neg star)]
    exact (copies_comment going).leaves (h .comment)

theorem agree_nil : Agree [] := by
  have slash : ofText ['/'] = [0x2F] := rfl
  have escape : ofText ['\\'] = [0x5C] := rfl
  have star : ofText ['*'] = [0x2A] := rfl
  have none : ofText [] = [] := rfl
  intro place found
  cases place <;>
    simp [Place.minified, Place.held, Place.context, minifyFrom, slash, escape, star, none, isMark]

/-- Characters one at a time come to what the octets with their look ahead come to. -/
theorem agree (text : Text) : Agree text := by
  -- A held character is copied by the next one, unless both together open, close or escape.
  induction text with
  | nil => exact agree_nil
  | cons c rest ih =>
      intro place
      cases place with
      | plain => exact behind_leaves c ih
      | slash =>
          by_cases star : c = '*'
          · subst star
            exact (copies_opening rest).leaves (ih .comment)
          · have same : Place.slash.minified (c :: rest) = Place.plain.minified (c :: rest) := by
              simp [Place.minified, Place.next, Place.drops, Place.isPlain, star]
            have passed : passes '/' (c :: rest) = true := by
              refine passes_iff.mpr ⟨by decide, fun ⟨_, same⟩ => ?_, fun ⟨_, same⟩ => ?_⟩
              all_goals cases same
              exact star rfl
            rw [same]
            exact (copies_plain passed).leaves (behind_leaves c ih)
      | quoted mark => exact quoted_leaves mark c ih
      | escaped mark => exact (copies_escape mark.2 c rest).leaves (ih (.quoted mark))
      | comment => exact comment_leaves c ih
      | star =>
          by_cases slash : c = '/'
          · subst slash
            exact (copies_end rest).leaves (ih .plain)
          · have same : Place.star.minified (c :: rest) = Place.comment.minified (c :: rest) := by
              simp [Place.minified, Place.next, Place.drops, Place.isPlain, slash]
            have going : ¬['*', '/'] <+: '*' :: c :: rest := by
              rintro ⟨_, same⟩
              cases same
              exact slash rfl
            rw [same]
            exact (copies_comment going).leaves (comment_leaves c ih)

theorem minify_ofText (text : Text) :
    minify (ofText text) = ofText (Place.plain.minified text) :=
  agree text .plain []

namespace Place

theorem minified_append {place : Place} {text rest : Text} (h : place.keeps text rest = true) :
    place.minified (text ++ rest) = text ++ (place.after text).minified rest := by
  induction text generalizing place with
  | nil => rfl
  | cons c text ih =>
      obtain ⟨kept, others⟩ := Bool.and_eq_true_iff.mp h
      have going : place.drops (c :: (text ++ rest)) = false := by simpa using kept
      rw [List.cons_append, minified, going, if_neg Bool.false_ne_true, ih others]
      rfl

/-- Outside of plain text nothing is dropped. -/
theorem keeps_cons {place : Place} (within : place.isPlain = false) (c : Char) (text rest : Text) :
    place.keeps (c :: text) rest = (place.next c).keeps text rest := by
  simp [keeps, drops, within]

/-- What is read as a string after its opening mark is kept. -/
theorem keeps_string {mark : Mark} {n m : Nat} {text : Text}
    (h : stringLengthFrom mark n text = some m) :
    ∃ k, m = n + k ∧ ∀ rest, (quoted mark).keeps (text.take k) rest = true := by
  have escape (c : Char) (text rest : Text) :
      (quoted mark).keeps ('\\' :: c :: text) rest = (quoted mark).keeps text rest := by
    rw [keeps_cons rfl, show (quoted mark).next '\\' = escaped mark from rfl, keeps_cons rfl]
    rfl
  have passes {c : Char} (going : c ≠ mark) (plain : c ≠ '\\') (text rest : Text) :
      (quoted mark).keeps (c :: text) rest = (quoted mark).keeps text rest := by
    rw [keeps_cons rfl, next, if_neg plain, if_neg going]
  fun_induction stringLengthFrom mark n text with
  | case1 | case3 | case6 => cases h
  | case2 n rest ih =>
      obtain ⟨k, rfl, kept⟩ := ih h
      have going : '\n' ≠ mark.1 := by obtain ⟨_, rfl | rfl⟩ := mark <;> decide
      have line (text rest : Text) := passes going (by decide) text rest
      exact ⟨k + 3, by omega, fun _ => (escape _ _ _).trans ((line _ _).trans (kept _))⟩
  | case4 n c rest _ _ ih =>
      obtain ⟨k, rfl, kept⟩ := ih h
      exact ⟨k + 2, by omega, fun _ => (escape _ _ _).trans (kept _)⟩
  | case5 n rest =>
      cases h
      exact ⟨1, rfl, fun _ => rfl⟩
  | case7 n c rest _ _ _ going plain ih =>
      obtain ⟨k, rfl, kept⟩ := ih h
      have escape : c ≠ '\\' := by
        rintro rfl
        simp at plain
      exact ⟨k + 1, by omega, fun _ => (passes going escape _ _).trans (kept _)⟩

/-- What is read as a comment after its opening is kept, also where it is never closed. -/
theorem keeps_comment (n : Nat) (text : Text) :
    ∃ k, commentLengthFrom n text = n + k ∧ ∀ rest,
      comment.keeps (text.take k) rest = true ∧
        (['/'].isPrefixOf text = false → star.keeps (text.take k) rest = true) := by
  fun_induction commentLengthFrom n text with
  | case1 n rest => exact ⟨2, rfl, fun _ => ⟨rfl, fun _ => rfl⟩⟩
  | case2 n c rest going ih =>
      obtain ⟨k, same, kept⟩ := ih
      have further (after : Text) : (comment.next c).keeps (rest.take k) after = true := by
        by_cases star : c = '*'
        · have apart : ['/'].isPrefixOf rest = false := by
            rw [← Bool.not_eq_true, List.isPrefixOf_iff_prefix]
            rintro ⟨more, rfl⟩
            exact going more star rfl
          rw [next, if_pos star]
          exact (kept after).2 apart
        · rw [next, if_neg star]
          exact (kept after).1
      refine ⟨k + 1, by rw [same]; omega, fun after => ?_⟩
      rw [List.take_succ_cons, keeps_cons rfl, keeps_cons rfl]
      refine ⟨further after, fun apart => ?_⟩
      have slash : c ≠ '/' := by
        rintro rfl
        cases apart
      rw [next, if_neg slash]
      exact further after
  | case3 n => exact ⟨0, rfl, fun _ => ⟨rfl, fun _ => rfl⟩⟩

theorem keeps_next {c : Char} (other : c ≠ ';') (place : Place) (text rest : Text) :
    place.keeps (c :: text) rest = (place.next c).keeps text rest := by
  have apart : [';', '\x7d'].isPrefixOf (c :: (text ++ rest)) = false := by
    rw [← Bool.not_eq_true, List.isPrefixOf_iff_prefix]
    exact fun ⟨_, same⟩ => other (List.cons.inj same).1.symm
  simp [keeps, drops, apart]

theorem next_of_isPlain {place : Place} (plain : place.isPlain = true) {c : Char}
    (other : c ≠ '*') : place.next c = behind c := by
  cases place with
  | plain => rfl
  | slash => exact if_neg other
  | _ => cases plain

/-- Strings and comments that begin in plain text are kept, whatever they hold. -/
theorem keeps_lexeme {c : Char} {rest : Text} {kind : Kind} {more : Nat}
    (h : lexeme c rest = .token kind more) (solid : kind = .string ∨ kind = .comment)
    {place : Place} (plain : place.isPlain = true) (back : Text) :
    place.keeps (c :: rest.take more) back = true := by
  obtain rfl | rfl := solid
  · obtain ⟨quote, closed⟩ := lexeme_string h
    obtain ⟨k, same, kept⟩ := @keeps_string ⟨c, quote⟩ _ _ _ closed
    obtain rfl : more = k := by omega
    have semicolon : c ≠ ';' := by obtain rfl | rfl := quote <;> decide
    have star : c ≠ '*' := by obtain rfl | rfl := quote <;> decide
    rw [keeps_next semicolon, next_of_isPlain plain star, behind, dif_pos quote, kept]
  · obtain ⟨rfl, inner, rfl, rfl⟩ := lexeme_comment h
    obtain ⟨k, same, kept⟩ := keeps_comment 1 inner
    rw [same, Nat.add_comm, List.take_succ_cons, keeps_next (by decide),
      next_of_isPlain plain (by decide), keeps_next (by decide)]
    exact (kept back).1

end Place

end Minify
end UtilityCss
