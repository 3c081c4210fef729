import UtilityCss.Source

/-!
A coarse look at markup. Its tokens are the longest runs of octets between angle brackets, quotation
marks and ASCII white space, without the slashes, backslashes, colons and equals signs at their
ends. A run that ends because reading broke off is no token.

Markup is looked at through a buffer that is filled with one chunk at a time, so a run can come in
several pieces. Each token that is read leaves fewer octets to be read.
-/
namespace UtilityCss.Markup

def isBreak (b : UInt8) : Bool :=
  b == 0x3C || b == 0x3E || b == 0x22 || b == 0x27 || b == 0x60 || (0x09 ≤ b && b ≤ 0x0D) ||
    b == 0x20

def isTrim (b : UInt8) : Bool :=
  b == 0x2F || b == 0x5C || b == 0x3A || b == 0x3D

def trimToken (token : Octets) : Octets :=
  ((token.dropWhile isTrim).reverse.dropWhile isTrim).reverse

/-- The octets at hand and the chunks that are still to be delivered. No chunk is empty, so the
buffer is empty after a refill only at the end. -/
structure Reader where
  buffer : Octets
  ahead : List Octets
  filled : ∀ chunk ∈ ahead, chunk ≠ []
  failure : Option IoError

namespace Reader

def ofFeed (feed : Feed) : Reader :=
  ⟨[], feed.chunks.filter (!·.isEmpty), by simp, feed.failure⟩

/-- All that is still to be read. -/
def unread (r : Reader) : Octets :=
  r.buffer ++ r.ahead.flatten

/-- Takes the next chunk where no octets are at hand. -/
def refill : Reader → Except IoError Reader
  | ⟨[], chunk :: ahead, filled, failure⟩ =>
    .ok ⟨chunk, ahead, fun c inside => filled c (List.mem_cons_of_mem _ inside), failure⟩
  | ⟨[], [], _, some error⟩ => .error error
  | r => .ok r

theorem refill_unread {r full : Reader} (h : r.refill = .ok full) : full.unread = r.unread := by
  match r with
  | ⟨[], chunk :: ahead, _, _⟩ | ⟨[], [], _, none⟩ | ⟨_ :: _, _, _, _⟩ =>
      cases h
      rfl

/-- Leaves the wanted octets at the begin of those at hand. -/
def pass (wanted : UInt8 → Bool) (r : Reader) : Reader :=
  { r with buffer := r.buffer.dropWhile wanted }

theorem pass_unread (wanted : UInt8 → Bool) (r : Reader) :
    r.buffer.takeWhile wanted ++ (r.pass wanted).unread = r.unread := by
  rw [unread, pass, ← List.append_assoc, List.takeWhile_append_dropWhile, unread]

/-- Reads on as long as octets are wanted. What has been taken is newest first. -/
def takeWhile (wanted : UInt8 → Bool) (taken : Octets) (r : Reader) :
    Except IoError (Octets × Reader) :=
  match _filled : r.refill with
  | .error error => .error error
  | .ok full =>
    if _ended : full.buffer = [] then .ok (taken, full)
    else
      let held := full.buffer.takeWhile wanted
      let left := full.pass wanted
      if _spent : left.buffer = [] then takeWhile wanted (held.reverse ++ taken) left
      else .ok (held.reverse ++ taken, left)
termination_by r.unread.length
decreasing_by
  have some := List.length_pos_iff.mpr _ended
  rw [← refill_unread _filled, unread, _spent, unread, List.nil_append, List.length_append]
  exact Nat.lt_add_of_pos_left some

/-- What is taken is no longer to be read, and nothing else is lost. -/
theorem takeWhile_unread {wanted : UInt8 → Bool} {taken found : Octets} {r left : Reader}
    (h : r.takeWhile wanted taken = .ok (found, left)) :
    found.reverse ++ left.unread = taken.reverse ++ r.unread := by
  fun_induction takeWhile wanted taken r with
  | case1 => cases h
  | case2 taken r full filled ended =>
      cases h
      rw [refill_unread filled]
  | case3 taken r full filled ended held rest spent ih =>
      rw [ih h, ← refill_unread filled, ← pass_unread wanted full]
      simp [held, rest]
  | case4 taken r full filled ended held rest spent =>
      obtain ⟨rfl, rfl⟩ := Prod.mk.inj (Except.ok.inj h)
      rw [← refill_unread filled, ← pass_unread wanted full]
      simp [held, rest]

/-- The run that begins here. -/
def readRun (r : Reader) : Except IoError (Octets × Reader) := do
  let (run, left) ← r.takeWhile (!isBreak ·) []
  return (run.reverse, left)

/-- The run after the next breaks, which is empty only at the end. -/
def nextRun (r : Reader) : Except IoError (Octets × Reader) := do
  let (_, begun) ← r.takeWhile isBreak []
  begun.readRun

theorem readRun_unread {r left : Reader} {run : Octets} (h : r.readRun = .ok (run, left)) :
    run ++ left.unread = r.unread := by
  rw [readRun] at h
  cases read : r.takeWhile (!isBreak ·) [] with
  | error error =>
      rw [read] at h
      cases h
  | ok found =>
      rw [read] at h
      cases h
      exact takeWhile_unread read

theorem nextRun_unread {r left : Reader} {run : Octets} (h : r.nextRun = .ok (run, left)) :
    ∃ breaks, breaks ++ run ++ left.unread = r.unread := by
  rw [nextRun] at h
  cases passed : r.takeWhile isBreak [] with
  | error error =>
      rw [passed] at h
      cases h
  | ok found =>
      rw [passed] at h
      refine ⟨found.1.reverse, ?_⟩
      rw [List.append_assoc, readRun_unread h]
      exact takeWhile_unread passed

theorem nextRun_lt {r left : Reader} {run : Octets} (h : r.nextRun = .ok (run, left))
    (some : run ≠ []) : left.unread.length < r.unread.length := by
  obtain ⟨breaks, whole⟩ := nextRun_unread h
  have positive := List.length_pos_iff.mpr some
  rw [← whole, List.length_append, List.length_append]
  omega

/-- Passes over runs of which trimming leaves nothing. An empty run is the end of the markup. -/
def nextToken (r : Reader) : Except IoError (Option (Octets × Reader)) :=
  match _read : r.nextRun with
  | .error error => .error error
  | .ok (run, left) =>
    if _ended : run = [] then .ok none
    else
      let token := trimToken run
      if token = [] then nextToken left else .ok (some (token, left))
termination_by r.unread.length
decreasing_by exact nextRun_lt _read _ended

theorem nextToken_lt {r left : Reader} {token : Octets}
    (h : r.nextToken = .ok (some (token, left))) : left.unread.length < r.unread.length := by
  fun_induction nextToken r with
  | case1 | case2 => cases h
  | case3 r run next read ended token' empty ih => exact Nat.lt_trans (ih h) (nextRun_lt read ended)
  | case4 r run next read ended token' left' =>
      obtain ⟨-, rfl⟩ := Prod.mk.inj (Option.some.inj (Except.ok.inj h))
      exact nextRun_lt read ended

/-- The tokens that are left, after those found so far, newest first. -/
def tokensFrom (found : List Octets) (r : Reader) : List Octets × Option IoError :=
  match _next : r.nextToken with
  | .error error => (found.reverse, some error)
  | .ok none => (found.reverse, none)
  | .ok (some (token, left)) => tokensFrom (token :: found) left
termination_by r.unread.length
decreasing_by exact nextToken_lt _next

end Reader

/-- The tokens up to the end of the markup or to the error that cut it short. -/
def tokens (feed : Feed) : List Octets × Option IoError :=
  Reader.tokensFrom [] (.ofFeed feed)

end UtilityCss.Markup
