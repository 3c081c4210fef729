import UtilityCss.Proofs.Purge.Words

/-!
Reading markup chunk by chunk finds the words of all that is delivered. A refill changes nothing
that is still to be read, so reading on ends in front of the same octet in whatever chunks the
markup comes, and a run that spans chunks is put together again.
-/
namespace UtilityCss.Markup
namespace Reader

/-- How reading on ends: in front of an octet that is not wanted, at the end of the markup, or where
it breaks off. -/
inductive Takes (wanted : UInt8 → Bool) (taken : Octets) (r : Reader) :
    Except IoError (Octets × Reader) → Prop
  | stopped {held b rest left} : r.unread = held ++ b :: rest → (∀ c ∈ held, wanted c = true) →
      wanted b = false → left.unread = b :: rest → left.failure = r.failure →
      Takes wanted taken r (.ok (held.reverse ++ taken, left))
  | ended {left} : (∀ c ∈ r.unread, wanted c = true) → r.failure = none → left.unread = [] →
      left.failure = none → Takes wanted taken r (.ok (r.unread.reverse ++ taken, left))
  | broken {error} : (∀ c ∈ r.unread, wanted c = true) → r.failure = some error →
      Takes wanted taken r (.error error)

theorem refill_eq_error {r : Reader} {error : IoError} (h : r.refill = .error error) :
    r.unread = [] ∧ r.failure = some error := by
  match r with
  | ⟨[], [], _, some _⟩ =>
      cases h
      exact ⟨rfl, rfl⟩

theorem refill_failure {r full : Reader} (h : r.refill = .ok full) : full.failure = r.failure := by
  match r with
  | ⟨[], _ :: _, _, _⟩ | ⟨[], [], _, none⟩ | ⟨_ :: _, _, _, _⟩ =>
      cases h
      rfl

/-- No chunk is empty, so nothing at hand after a refill means that nothing is left. -/
theorem refill_ended {r full : Reader} (h : r.refill = .ok full) (ended : full.buffer = []) :
    r.unread = [] ∧ r.failure = none := by
  match r with
  | ⟨[], chunk :: _, filled, _⟩ =>
      cases h
      exact absurd ended (filled chunk List.mem_cons_self)
  | ⟨[], [], _, none⟩ => exact ⟨rfl, rfl⟩
  | ⟨_ :: _, _, _, _⟩ =>
      cases h
      cases ended

theorem Takes.prepend {wanted : UInt8 → Bool} {taken held : Octets} {r left : Reader}
    {result : Except IoError (Octets × Reader)} (all : ∀ c ∈ held, wanted c = true)
    (unread : r.unread = held ++ left.unread) (failure : left.failure = r.failure)
    (h : Takes wanted (held.reverse ++ taken) left result) : Takes wanted taken r result := by
  cases h with
  | @stopped more b rest next here more_all stop next_unread next_failure =>
      have whole : r.unread = (held ++ more) ++ b :: rest := by
        rw [unread, here, List.append_assoc]
      have both : ∀ c ∈ held ++ more, wanted c = true := List.forall_mem_append.mpr ⟨all, more_all⟩
      have : Takes wanted taken r _ :=
        .stopped whole both stop next_unread (next_failure.trans failure)
      rwa [List.reverse_append, List.append_assoc] at this
  | ended more_all none next_unread next_failure =>
      have both : ∀ c ∈ r.unread, wanted c = true := by
        rw [unread]
        exact List.forall_mem_append.mpr ⟨all, more_all⟩
      have : Takes wanted taken r _ :=
        .ended both (failure.symm.trans none) next_unread next_failure
      rwa [unread, List.reverse_append, List.append_assoc] at this
  | broken more_all some =>
      refine .broken ?_ (failure.symm.trans some)
      rw [unread]
      exact List.forall_mem_append.mpr ⟨all, more_all⟩

theorem takeWhile_takes (wanted : UInt8 → Bool) (taken : Octets) (r : Reader) :
    Takes wanted taken r (r.takeWhile wanted taken) := by
  have all (octets : Octets) : ∀ c ∈ octets.takeWhile wanted, wanted c = true :=
    List.all_eq_true.mp List.all_takeWhile
  have unread {r full : Reader} (filled : r.refill = .ok full) :
      r.unread = full.buffer.takeWhile wanted ++ (full.pass wanted).unread :=
    (refill_unread filled).symm.trans (pass_unread wanted full).symm
  fun_induction takeWhile wanted taken r with
  | case1 taken r error filled =>
      obtain ⟨nothing, failure⟩ := refill_eq_error filled
      exact .broken (by simp [nothing]) failure
  | case2 taken r full filled ended =>
      obtain ⟨nothing, failure⟩ := refill_ended filled ended
      have : Takes wanted taken r _ := .ended (by simp [nothing]) failure
        ((refill_unread filled).trans nothing) ((refill_failure filled).trans failure)
      rwa [nothing] at this
  | case3 taken r full filled ended held left spent ih =>
      have failure := refill_failure filled
      exact ih.prepend (all full.buffer) (unread filled) failure
  | case4 taken r full filled ended held left spent =>
      have failure := refill_failure filled
      obtain ⟨b, rest, next⟩ := List.exists_cons_of_ne_nil spent
      have stop : wanted b = false := by
        have head := List.head?_dropWhile_not wanted full.buffer
        rwa [show full.buffer.dropWhile wanted = b :: rest from next] at head
      have left_unread : left.unread = b :: (rest ++ left.ahead.flatten) := by
        rw [Reader.unread, next]
        rfl
      exact .stopped ((unread filled).trans (congrArg _ left_unread)) (all full.buffer) stop
        left_unread failure

/-- The words that are still to come. -/
def words (r : Reader) : List Octets :=
  wordsUpTo r.failure r.unread

/-- How reading a run ends, where the given words are to come. Where it breaks off there are none,
and an empty run is the end. Any other run is a word, unless trimming leaves nothing of it. -/
inductive ReadsRun (failure : Option IoError) (words : List Octets) :
    Except IoError (Octets × Reader) → Prop
  | broken {error} : failure = some error → words = [] → ReadsRun failure words (.error error)
  | ended {left} : failure = none → words = [] → ReadsRun failure words (.ok ([], left))
  | run {run left} : run ≠ [] → left.failure = failure →
      words = trimmedRuns isTrim [run] ++ left.words → ReadsRun failure words (.ok (run, left))

theorem readRun_reads {r : Reader} (solid : ∀ b ∈ r.unread.head?, isBreak b = false) :
    ReadsRun r.failure r.words r.readRun := by
  have taken := takeWhile_takes (!isBreak ·) [] r
  rw [readRun]
  cases read : r.takeWhile (!isBreak ·) [] with
  | error error =>
      rw [read] at taken
      cases taken with
      | broken all failure =>
          refine .broken failure ?_
          rw [words, failure]
          exact endedWords_last (by simpa using all)
  | ok found =>
      rw [read] at taken
      cases taken with
      | @stopped run b rest left unread all stop left_unread failure =>
          have unbroken : ∀ b ∈ run, isBreak b = false := by simpa using all
          have breaks : isBreak b = true := by simpa using stop
          have some : run ≠ [] := by
            rintro rfl
            rw [unread] at solid
            simp [solid b rfl] at breaks
          have same : left.words = wordsUpTo r.failure rest := by
            rw [words, failure, left_unread]
            exact wordsUpTo_run (List.forall_mem_nil _) breaks _ _
          have word : r.words = trimmedRuns isTrim [run] ++ left.words := by
            rw [same, words, unread, wordsUpTo_run unbroken breaks]
          simpa using ReadsRun.run some failure word
      | @ended left all whole left_unread left_whole =>
          have unbroken : ∀ b ∈ r.unread, isBreak b = false := by simpa using all
          by_cases none : r.unread = []
          · have nothing : r.words = [] := by
              rw [words, whole, none]
              rfl
            have : ReadsRun r.failure r.words (.ok ([], left)) := .ended whole nothing
            simpa [none] using this
          · have word : r.words = trimmedRuns isTrim [r.unread] ++ left.words := by
              rw [words, whole, words, left_unread, left_whole]
              exact (words_last unbroken).trans (List.append_nil _).symm
            simpa using ReadsRun.run none (left_whole.trans whole.symm) word

theorem nextRun_reads (r : Reader) : ReadsRun r.failure r.words r.nextRun := by
  have passed := takeWhile_takes isBreak [] r
  rw [nextRun]
  cases first : r.takeWhile isBreak [] with
  | error error =>
      rw [first] at passed
      cases passed with
      | broken all failure => exact .broken failure (wordsUpTo_onlyBreaks all _)
  | ok found =>
      rw [first] at passed
      cases passed with
      | @stopped breaks b rest begun unread all stop begun_unread failure =>
          have words : r.words = begun.words := by
            rw [words, words, unread, failure, begun_unread, wordsUpTo_breaks all]
          have solid : ∀ b ∈ begun.unread.head?, isBreak b = false := by
            simpa [begun_unread] using stop
          rw [words, ← failure]
          exact readRun_reads solid
      | @ended begun all whole begun_unread begun_whole =>
          have words : r.words = begun.words := by
            rw [words, wordsUpTo_onlyBreaks all, words, begun_unread, begun_whole]
            rfl
          have solid : ∀ b ∈ begun.unread.head?, isBreak b = false := by simp [begun_unread]
          rw [words, whole, ← begun_whole]
          exact readRun_reads solid

/-- The next token is the next of the words to come. -/
inductive ReadsToken (failure : Option IoError) (words : List Octets) :
    Except IoError (Option (Octets × Reader)) → Prop
  | broken {error} : failure = some error → words = [] → ReadsToken failure words (.error error)
  | ended : failure = none → words = [] → ReadsToken failure words (.ok none)
  | word {token left} : left.failure = failure → words = token :: left.words →
      ReadsToken failure words (.ok (some (token, left)))

theorem nextToken_reads (r : Reader) : ReadsToken r.failure r.words r.nextToken := by
  fun_induction nextToken r with
  | case1 r error read =>
      have reads := nextRun_reads r
      rw [read] at reads
      cases reads with
      | broken failure none => exact .broken failure none
  | case2 r left read =>
      have reads := nextRun_reads r
      rw [read] at reads
      cases reads with
      | ended whole none => exact .ended whole none
      | run some => exact absurd rfl some
  | case3 r run left read ended token empty ih =>
      have reads := nextRun_reads r
      rw [read] at reads
      cases reads with
      | ended => exact absurd rfl ended
      | run _ failure word =>
          rw [trimmedRuns_trimToken, if_pos empty, List.nil_append] at word
          rwa [word, ← failure]
  | case4 r run left read ended token some =>
      have reads := nextRun_reads r
      rw [read] at reads
      cases reads with
      | ended => exact absurd rfl ended
      | run _ failure word =>
          rw [trimmedRuns_trimToken, if_neg some] at word
          exact .word failure word

/-- The tokens found are the words to come, and reading ends as the markup does. -/
theorem tokensFrom_eq (found : List Octets) (r : Reader) :
    r.tokensFrom found = (found.reverse ++ r.words, r.failure) := by
  fun_induction tokensFrom found r with
  | case1 found r error next =>
      have reads := nextToken_reads r
      rw [next] at reads
      cases reads with
      | broken failure none => rw [none, failure, List.append_nil]
  | case2 found r next =>
      have reads := nextToken_reads r
      rw [next] at reads
      cases reads with
      | ended whole none => rw [none, whole, List.append_nil]
  | case3 found r token left next ih =>
      have reads := nextToken_reads r
      rw [next] at reads
      cases reads with
      | word failure words =>
          rw [ih, words, failure, List.reverse_cons, List.append_assoc, List.singleton_append]

theorem ofFeed_unread (feed : Feed) : (ofFeed feed).unread = feed.octets := by
  rw [unread, ofFeed, List.nil_append]
  exact List.flatten_filter_not_isEmpty

end Reader

theorem tokens_eq (feed : Feed) :
    tokens feed = (wordsUpTo feed.failure feed.octets, feed.failure) := by
  rw [tokens, Reader.tokensFrom_eq, Reader.words, Reader.ofFeed_unread]
  rfl

/-- Markup that does not break off has its words for tokens. -/
theorem tokens_unbroken {feed : Feed} (unbroken : feed.failure = none) :
    tokens feed = (words feed.octets, none) := by
  rw [tokens_eq, unbroken]
  rfl

/-- In whatever chunks markup comes, its tokens are its words in order. Where it breaks off they are
the words of the runs that a break follows in what was delivered, and the error comes after them. -/
theorem tokens_delivered (feed : Feed) :
    tokens feed =
      match feed.failure with
      | none => (words feed.octets, none)
      | some error => (endedWords feed.octets, some error) := by
  rw [tokens_eq]
  cases feed.failure <;> rfl

/-- A run over two chunks is one token, and a run that an error cuts short is none. -/
example :
    tokens ⟨[[0x3D, 0x61], [0x62, 0x20], [0x3A, 0x20, 0x63]], some .notUtf8⟩ =
      ([[0x61, 0x62]], some .notUtf8) := by
  decide +kernel

end UtilityCss.Markup
