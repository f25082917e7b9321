import SimplyProxy.Proxy.SimpleProxy
import SimplyProxy.RateLimit.Sequential

/-!
# The Retry-After header

A request over the limit is answered with 429 and the length of the window in seconds.

`retryAfter_honest`: who waits that long and sends nothing in between is let pass. All
timestamps that the limiter holds for the key at the time of the rejection are no later
than the rejection, so they have left the window by then, and only a request of the
same key adds one.
-/

namespace SimplyProxy
namespace SimpleProxy
open RateLimiter Runs SlidingWindow

/-! ## The header -/

/-- The request is answered with 429 and a Retry-After of `seconds`. -/
def AnsweredRetryAfter (self : SimpleProxy) (session : Session) (ctx : ProxyContext)
    (now : Instant) (seconds : UInt64) : Prop :=
  ∃ header endOfStream rest, (self.requestFilter session ctx now).session.written =
      session.written ++ .header header endOfStream :: rest ∧
    header.status = 429 ∧ header.headers.get "retry-after" = some (.ofText (toString seconds))

theorem ofText_toString_injective {a b : UInt64}
    (h : HeaderValue.ofText (toString a) = .ofText (toString b)) : a = b := by
  have visible : ∀ n : UInt64, ∀ c ∈ Nat.toDigits 10 n.toNat, Authority.visible c := fun n c hc =>
    (Authority.plain_of_isDigit (Nat.isDigit_of_mem_toDigits (by decide) (by decide) hc)).1
  have same := congrArg HeaderValue.toStr h
  change (HeaderValue.ofText (String.ofList (Nat.toDigits 10 a.toNat))).toStr =
    (HeaderValue.ofText (String.ofList (Nat.toDigits 10 b.toNat))).toStr at same
  rw [HeaderValue.toStr_ofText (visible a), HeaderValue.toStr_ofText (visible b),
    Option.some.injEq, String.ofList_inj] at same
  have value := congrArg (fun digits => Nat.ofDigitChars 10 digits 0) same
  simp only [Nat.ofDigitChars_ten_toDigits] at value
  exact UInt64.toNat_inj.mp value

theorem tooManyRequestsHeader_retryAfter (limiter : RateLimiter) :
    (tooManyRequestsHeader limiter).headers.get "retry-after" =
      some (.ofText (toString limiter.window.asSecs)) := rfl

/-- What is written first to a client over the limit is the header of the answer. -/
theorem tooManyRequests_written {limiter : RateLimiter} {session session' : Session}
    {written : Except ProxyError Unit}
    (h : tooManyRequests limiter session = (written, session')) :
    session'.written = session.written ∨ ∃ rest, session'.written =
      session.written ++ .header (tooManyRequestsHeader limiter) false :: rest := by
  unfold tooManyRequests Session.write at h
  cases first : session.writeError session.written.length with
  | some e =>
    simp only [first] at h
    obtain ⟨-, rfl⟩ := h
    exact .inl rfl
  | none =>
    simp only [first] at h
    split at h
    all_goals
      obtain ⟨-, rfl⟩ := h
      exact .inr ⟨_, by simp; rfl⟩

/-- Only a refusal by the limiter is answered so, and the seconds are those of its window. -/
theorem AnsweredRetryAfter.refused {self : SimpleProxy} {l : RateLimiter}
    (held : self.rateLimiter = some l) {session : Session} {ctx : ProxyContext} {now : Instant}
    {seconds : UInt64} (h : AnsweredRetryAfter self session ctx now seconds) :
    ∃ l', l.allow (limitKey session) now = .ok (false, l') ∧
      (self.requestFilter session ctx now).proxy.rateLimiter = some l' ∧
      seconds = l'.window.asSecs := by
  obtain ⟨header, endOfStream, rest, written, -, retryAfter⟩ := h
  have unwritten : session.written ≠ session.written ++ .header header endOfStream :: rest := by
    simp
  rcases self.requestFilter_cases session ctx now with
    ⟨-, reply⟩ | ⟨_, _, -, -, -, reply⟩ | ⟨_, _, -, -, -, reply⟩ |
    ⟨l₁, l', outcome, session', held₁, -, refused, answered, reply⟩
  · rw [reply] at written
    exact absurd written unwritten
  · rw [reply] at written
    exact absurd written unwritten
  · rw [reply] at written
    exact absurd written unwritten
  · obtain rfl : l = l₁ := Option.some.inj (held.symm.trans held₁)
    rw [reply] at written
    refine ⟨l', refused, by rw [reply], ?_⟩
    rcases tooManyRequests_written answered with same | ⟨rest', same⟩
    · exact absurd (same.symm.trans written) unwritten
    · rw [same, List.append_cancel_left_eq, List.cons.injEq] at written
      obtain ⟨first, -⟩ := written
      obtain ⟨rfl, -⟩ := Written.header.inj first
      rw [tooManyRequestsHeader_retryAfter, Option.some.injEq] at retryAfter
      exact (ofText_toString_injective retryAfter).symm

/-! ## Waiting -/

/-- An entry without a timestamp in the window has room. -/
theorem allow_of_old {l : RateLimiter} {key : String} {now : Instant} (pos : 0 < l.maxRequests)
    (fits : (now.checkedSub l.window).isSome)
    (old : ∀ ts ∈ l.deque key, ts.ns ≤ now.ns - l.window.ns) :
    ∃ l', l.allow key now = .ok (true, l') := by
  obtain ⟨cutoff, found⟩ := Option.isSome_iff_exists.mp fits
  have empty : newer Instant.ns cutoff.ns (l.deque key) = [] := by
    refine newer_eq_nil fun ts mem => ?_
    rw [Instant.checkedSub_ns found]
    exact old ts mem
  have room : (l.allowEntry key now cutoff).1 = true := by
    rw [allowEntry_admits, empty]
    exact pos
  exact ⟨_, by simp only [RateLimiter.allow, found]; rw [← room]⟩

/-- A limiter of a configuration, after any calls that took no later readings, refuses a
request at `t` and the answer has a Retry-After of some seconds. After any further
calls, none of them for a request of the same key, a request of this key that comes
those seconds later or still later is allowed. -/
theorem retryAfter_honest {rl : RateLimitConfig} {l₀ l l₁ l₂ : RateLimiter}
    (new : RateLimiter.new (RateLimitConfigResolved.fromConfig rl).maxRequests
      (RateLimitConfigResolved.fromConfig rl).window = .ok l₀) {hist meanwhile : List Event}
    (run : Run RateLimiter.Step l₀ hist l) {t t' : Instant}
    (earlier : ∀ e ∈ hist, ∀ now, e.call.reading = some now → now ≤ t) {self : SimpleProxy}
    (held : self.rateLimiter = some l) {session : Session} {ctx : ProxyContext} {seconds : UInt64}
    (answered : AnsweredRetryAfter self session ctx t seconds)
    (left : (self.requestFilter session ctx t).proxy.rateLimiter = some l₁)
    (later : Run RateLimiter.Step l₁ meanwhile l₂)
    (others : ∀ e ∈ meanwhile, ∀ now, e.call ≠ .allow (limitKey session) now)
    (waited : t.ns + seconds.toNat * 1_000_000_000 ≤ t'.ns) :
    ∃ l₃, l₂.allow (limitKey session) t' = .ok (true, l₃) := by
  obtain ⟨pos, rfl⟩ := new_eq_ok new
  obtain ⟨l', refused, left', rfl⟩ := answered.refused held
  obtain rfl : l₁ = l' := Option.some.inj (left.symm.trans left')
  have decides := allow_decides refused
  -- the settings never change
  have maxRequests : l₂.maxRequests = rl.maxRequests :=
    (run_settings later).1.trans (decides.maxRequests.trans (run_settings run).1)
  have window₁ : l₁.window = .fromSecs rl.windowSecs := decides.window.trans (run_settings run).2
  have window : l₂.window = .fromSecs rl.windowSecs := (run_settings later).2.trans window₁
  have waited : t.ns ≤ t'.ns - l₂.window.ns := by
    rw [window₁] at waited
    rw [window, Duration.fromSecs_ns]
    exact Int.le_sub_right_of_add_le waited
  refine allow_of_old (maxRequests ▸ pos) ?_ fun ts mem => le_trans ?_ waited
  · have := t.secs_ge
    rw [Instant.checkedSub_isSome_iff]
    refine le_trans ?_ waited
    unfold Instant.ns
    omega
  · -- every timestamp of the key is from before the rejection
    rcases run_stored later _ ts mem with mem | ⟨e, he, call⟩
    · rcases decides.own with ⟨⟨⟩, -⟩ | ⟨-, -, pruned⟩
      rw [pruned] at mem
      rcases run_stored run _ ts (mem_newer.mp mem).1 with mem | ⟨e, he, call⟩
      · simp at mem
      · exact Instant.le_iff_ns.mp (earlier e he ts (by rw [call]; rfl))
    · exact absurd call (others e he ts)

/-- A limiter with one slot that has admitted a request of an unknown client at `now`. -/
def oneAdmitted (now : Instant) : RateLimiter :=
  ⟨1, .fromSecs 10, AList.insert "unknown" [now] ∅⟩

def unknownSession : Session where
  clientAddr := none
  reqHeader := ⟨⟨none, none, none, "/"⟩, ⟨[]⟩⟩
  writeError := fun _ => none
  written := []

/-- The second request in a window of ten seconds is refused at 105; one at 115 is not. -/
theorem retryAfter_honest_once : ∃ l,
    ((oneAdmitted (.ofSecs 100 (by decide))).reset "10.0.0.1:4000").allow "unknown"
      (.ofSecs 115 (by decide)) = .ok (true, l) := by
  have new : RateLimiter.new (RateLimitConfigResolved.fromConfig ⟨1, 10⟩).maxRequests
      (RateLimitConfigResolved.fromConfig ⟨1, 10⟩).window = .ok ⟨1, .fromSecs 10, ∅⟩ := rfl
  have run : Run RateLimiter.Step ⟨1, .fromSecs 10, ∅⟩
      [⟨.allow "unknown" (.ofSecs 100 (by decide)), some true⟩]
      (oneAdmitted (.ofSecs 100 (by decide))) := .snoc .nil rfl
  have later : Run RateLimiter.Step (oneAdmitted (.ofSecs 100 (by decide)))
      [⟨.reset "10.0.0.1:4000", none⟩]
      ((oneAdmitted (.ofSecs 100 (by decide))).reset "10.0.0.1:4000") := .snoc .nil rfl
  have answered : AnsweredRetryAfter (limitedBy (oneAdmitted (.ofSecs 100 (by decide))))
      unknownSession newCtx (.ofSecs 105 (by decide)) 10 := ⟨_, false, _, rfl, rfl, rfl⟩
  refine retryAfter_honest new run ?_ rfl answered rfl later ?_ (by decide)
  · simp only [List.mem_singleton, forall_eq]
    rintro _ ⟨⟩
    decide
  · simp

end SimpleProxy

end SimplyProxy
