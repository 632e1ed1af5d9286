import EnterpriseRag.Core.Exceptions
import EnterpriseRag.Library.SlidingWindow
import Mathlib.Algebra.Order.Archimedean.Basic
import Mathlib.Algebra.Order.Ring.Rat
import Mathlib.Data.List.Dedup
import Mathlib.Data.Rat.Floor
import Mathlib.Data.Set.Finite.Lattice
import Mathlib.Order.Interval.Set.Defs

/-!
# The rate limiters

Two sliding windows behind one interface. `InMemorySlidingWindowRateLimiter` keeps the times
of the calls it admitted, `UpstashSlidingWindowRateLimiter` a sorted set in Redis with a
member for the text of every call's time. The keys do not share anything, so a state here is
what one of them holds. Times are numbers, and the key expires on the line of the times that
the calls bring.

`Tracks` is what the sorted set knows of the calls so far. `enforced_iff_nodup` is the limit :
it holds in every window if and only if no two calls have the same time, since such calls
are one member of the set.
-/

namespace EnterpriseRag

open SlidingWindow

/-- `(allowed, remaining, reset_at)`. -/
structure RateDecision where
  allowed : Bool
  remaining : ℕ
  resetAt : ℚ
  deriving DecidableEq, Repr

/-! ## The limiters -/

namespace InMemorySlidingWindowRateLimiter

/-- `is_allowed`, on the hits of a key and a route. -/
def isAllowed (limit window : ℕ) (hits : List ℚ) (now : ℚ) : Except Raised RateDecision × List ℚ :=
  let hits := hits.dropWhile (· < now - window)
  if limit ≤ hits.length then
    match hits with
    | [] => (.error (.exception "IndexError"), hits)
    | first :: _ => (.ok ⟨false, 0, first + window⟩, hits)
  else
    let hits := hits ++ [now]
    (.ok ⟨true, limit - hits.length, hits.headD now + window⟩, hits)

end InMemorySlidingWindowRateLimiter

/-- A sorted set in Redis, the members with their scores, and when its key expires. -/
structure SortedSet where
  entries : List (String × ℚ) := []
  expiresAt : Option ℚ := none
  deriving DecidableEq, Repr

namespace SortedSet

variable (set : SortedSet)

/-- The set that a command at the time finds. -/
def live (now : ℚ) : SortedSet :=
  if set.expiresAt.any (· ≤ now) then {} else set

def zremrangebyscore (least most : ℚ) : SortedSet :=
  { set with entries := set.entries.filter fun entry => !(least ≤ entry.2 && entry.2 ≤ most) }

/-- A member that is there gets the score. -/
def zadd (member : String) (score : ℚ) : SortedSet :=
  { set with entries := set.entries.filter (·.1 ≠ member) ++ [(member, score)] }

def zcard : ℕ :=
  set.entries.length

/-- The score of the first member of `zrange`. -/
def oldestScore : Option ℚ :=
  (set.entries.map (·.2)).min?

def expire (time : ℚ) : SortedSet :=
  { set with expiresAt := some time }

end SortedSet

namespace UpstashSlidingWindowRateLimiter

/-- `is_allowed`, with `str` of a time, on the sorted set of a key and a route. -/
def isAllowed (str : ℚ → String) (limit window : ℕ) (set : SortedSet) (now : ℚ) :
    RateDecision × SortedSet :=
  let set := ((set.live now).zremrangebyscore 0 (now - window)).zadd (str now) now
  let requestCount := set.zcard
  let oldest := set.oldestScore.getD now
  (⟨requestCount ≤ limit, limit - requestCount, oldest + window⟩, set.expire (now + window))

/-! ## What the set knows -/

/-- The members are the texts of calls, one each. A call is missing only once a later call
found it a window old. -/
structure Tracks (str : ℚ → String) (window : ℕ) (past : List ℚ) (set : SortedSet) : Prop where
  members : (set.entries.map Prod.fst).Nodup
  sound : ∀ entry ∈ set.entries, entry.1 = str entry.2 ∧ entry.2 ∈ past
  complete : ∀ t ∈ past, (str t, t) ∈ set.entries ∨ ∃ t' ∈ past, t ≤ t' - window
  expires : ∀ time ∈ set.expiresAt, ∀ t ∈ past, t + window ≤ time

variable {str : ℚ → String} {limit window : ℕ} {past calls : List ℚ} {now : ℚ} {set : SortedSet}

/-- The members that a call counts. -/
theorem mem_entries_isAllowed {entry : String × ℚ} :
    entry ∈ (isAllowed str limit window set now).2.entries ↔
      (entry ∈ (set.live now).entries ∧ entry.1 ≠ str now ∧
        (entry.2 < 0 ∨ now - window < entry.2)) ∨ entry = (str now, now) := by
  simp [isAllowed, SortedSet.expire, SortedSet.zadd, SortedSet.zremrangebyscore]

theorem mem_live {entry : String × ℚ} (h : entry ∈ (set.live now).entries) :
    entry ∈ set.entries := by
  unfold SortedSet.live at h
  split at h
  · simp at h
  · exact h

theorem Tracks.initial : Tracks str window [] {} :=
  ⟨List.nodup_nil, List.forall_mem_nil _, List.forall_mem_nil _, fun _ h => nomatch h⟩

/-- One more call, not before the others. -/
theorem Tracks.isAllowed (h : Tracks str window past set) (hnow : ∀ t ∈ past, t ≤ now)
    (hstr : ∀ t ∈ past, str t = str now → t = now) :
    Tracks str window (past ++ [now]) (isAllowed str limit window set now).2 where
  members := by
    have hlive : ((set.live now).entries.map Prod.fst).Nodup := by
      unfold SortedSet.live
      split
      · exact List.nodup_nil
      · exact h.members
    have hkept := ((hlive.sublist ((List.filter_sublist (p := fun entry : String × ℚ =>
      !(0 ≤ entry.2 && entry.2 ≤ now - window))).map Prod.fst)).sublist
        ((List.filter_sublist (p := fun entry : String × ℚ => entry.1 ≠ str now)).map Prod.fst))
    show (((_ ++ [_]) : List (String × ℚ)).map Prod.fst).Nodup
    rw [List.map_append, List.nodup_append]
    refine ⟨hkept, List.nodup_singleton _, ?_⟩
    rintro _ hmember _ hlast rfl
    obtain ⟨entry, hentry, rfl⟩ := List.mem_map.1 hmember
    have hne := (List.mem_filter.1 hentry).2
    rw [List.map_singleton, List.mem_singleton] at hlast
    rw [decide_eq_true_eq] at hne
    exact hne hlast
  sound := by
    intro entry hentry
    rcases mem_entries_isAllowed.1 hentry with ⟨hlive, -⟩ | rfl
    · obtain ⟨htext, hpast⟩ := h.sound entry (mem_live hlive)
      exact ⟨htext, List.mem_append_left _ hpast⟩
    · exact ⟨rfl, List.mem_append_right _ (List.mem_singleton_self _)⟩
  complete := by
    intro t ht
    rcases List.mem_append.1 ht with ht | ht
    · by_cases hold : t ≤ now - window
      · exact Or.inr ⟨now, List.mem_append_right _ (List.mem_singleton_self _), hold⟩
      rcases h.complete t ht with hentry | ⟨t', ht', hold'⟩
      · left
        by_cases hsame : str t = str now
        · obtain rfl := hstr t ht hsame
          exact mem_entries_isAllowed.2 (Or.inr rfl)
        refine mem_entries_isAllowed.2 (Or.inl ⟨?_, hsame, Or.inr (not_le.1 hold)⟩)
        have hlives : ¬set.expiresAt.any (· ≤ now) = true := by
          intro hexpired
          obtain ⟨time, htime, hpassed⟩ := (Option.any_eq_true _ _).1 hexpired
          have hexpires := h.expires time htime t ht
          have hpassed := of_decide_eq_true hpassed
          exact hold (by linarith)
        rw [SortedSet.live, if_neg hlives]
        exact hentry
      · exact Or.inr ⟨t', List.mem_append_left _ ht', hold'⟩
    · obtain rfl := List.mem_singleton.1 ht
      exact Or.inl (mem_entries_isAllowed.2 (Or.inr rfl))
  expires := by
    rintro _ ⟨⟩ t ht
    rcases List.mem_append.1 ht with ht | ht
    · have hlast := hnow t ht
      linarith
    · rw [List.mem_singleton.1 ht]

variable (limit window) in
/-- After calls in order, the set tracks them. -/
theorem tracks_after (hsorted : calls.Pairwise (· ≤ ·)) (hstr : Set.InjOn str {t | t ∈ calls}) :
    Tracks str window calls (after (isAllowed str limit window) {} calls) := by
  induction calls using List.reverseRecOn with
  | nil => exact Tracks.initial
  | append_singleton past now ih =>
    obtain ⟨hpast, -, hnow⟩ := List.pairwise_append.1 hsorted
    rw [after_concat]
    refine (ih hpast (hstr.mono fun t ht => List.mem_append_left _ ht)).isAllowed
      (fun t ht => hnow t ht now (List.mem_singleton_self _)) fun t ht hsame => ?_
    exact hstr (List.mem_append_left _ ht) (List.mem_append_right _ (List.mem_singleton_self _)) hsame

/-- Calls at different times are different members. -/
theorem Tracks.length_recent_le (h : Tracks str window past set) (hnow : ∀ t ∈ past, t ≤ now)
    (hnodup : past.Nodup) : (recent (window : ℚ) now past).length ≤ set.entries.length := by
  have hmembers : ((recent (window : ℚ) now past).map fun t => (str t, t)) ⊆ set.entries := by
    intro entry hentry
    obtain ⟨t, ht, rfl⟩ := List.mem_map.1 hentry
    obtain ⟨hpast, hrecent⟩ := List.mem_filter.1 ht
    rw [decide_eq_true_eq] at hrecent
    rcases h.complete t hpast with hentry | ⟨t', ht', hold⟩
    · exact hentry
    · have hlast := hnow t' ht'
      linarith
  have hdistinct : ((recent (window : ℚ) now past).map fun t => (str t, t)).Nodup :=
    (hnodup.sublist recent_sublist).map fun _ _ heq => (Prod.mk.inj heq).2
  simpa using (List.subperm_of_subset hdistinct hmembers).length_le

/-- Each member has its own score. -/
theorem Tracks.nodup_scores (h : Tracks str window past set) :
    (set.entries.map Prod.snd).Nodup := by
  have htexts : set.entries.map Prod.fst = (set.entries.map Prod.snd).map str := by
    rw [List.map_map]
    exact List.map_congr_left fun entry hentry => (h.sound entry hentry).1
  have hmembers := h.members
  rw [htexts] at hmembers
  exact hmembers.of_map str

/-- There are no more members than different times. -/
theorem Tracks.length_le_dedup (h : Tracks str window past set) (hsub : past ⊆ calls) :
    set.entries.length ≤ calls.dedup.length := by
  have hmem : set.entries.map Prod.snd ⊆ calls.dedup := by
    intro t ht
    obtain ⟨entry, hentry, rfl⟩ := List.mem_map.1 ht
    exact List.mem_dedup.2 (hsub (h.sound entry hentry).2)
  simpa using (List.subperm_of_subset h.nodup_scores hmem).length_le

/-! ## The limit -/

/-- The calls in the interval that were answered allowed. -/
def allowedIn (str : ℚ → String) (limit window : ℕ) (calls : List ℚ) (I : Set ℚ)
    [DecidablePred (· ∈ I)] : ℕ :=
  (answered (isAllowed str limit window) {} calls).countP fun call =>
    call.2.allowed && decide (call.1 ∈ I)

/-- At most `limit` calls are allowed in every window, whichever end of it is open. -/
def Enforced (str : ℚ → String) (limit window : ℕ) (calls : List ℚ) : Prop :=
  ∀ start : ℚ, allowedIn str limit window calls (Set.Ico start (start + window)) ≤ limit ∧
    allowedIn str limit window calls (Set.Ioc start (start + window)) ≤ limit

theorem allowed_isAllowed :
    (isAllowed str limit window set now).1.allowed =
      decide ((isAllowed str limit window set now).2.entries.length ≤ limit) :=
  rfl

/-- A call that was allowed, and the calls before it. -/
theorem exists_of_prefix_allowed {answers : List (ℚ × RateDecision)} {call : ℚ × RateDecision}
    (h : answers ++ [call] <+: answered (isAllowed str limit window) {} calls) :
    ∃ past, answers = answered (isAllowed str limit window) {} past ∧ past ++ [call.1] <+: calls ∧
      call.2.allowed = decide
        ((after (isAllowed str limit window) {} (past ++ [call.1])).entries.length ≤ limit) := by
  obtain ⟨prior, hprior, hanswers⟩ := exists_of_prefix_answered h
  obtain rfl | ⟨past, now, rfl⟩ := List.eq_nil_or_concat prior
  · simp [answered] at hanswers
  · rw [List.concat_eq_append, answered_concat] at hanswers
    obtain ⟨rfl, hcall⟩ := List.append_inj' hanswers rfl
    obtain rfl := List.singleton_inj.1 hcall
    rw [List.concat_eq_append] at hprior
    refine ⟨past, rfl, hprior, ?_⟩
    rw [after_concat]
    exact allowed_isAllowed

/-- Calls at different times are limited. -/
theorem enforced_of_nodup (hsorted : calls.Pairwise (· ≤ ·))
    (hstr : Set.InjOn str {t | t ∈ calls}) (hnodup : calls.Nodup) :
    Enforced str limit window calls := by
  -- whichever calls lie less than a window apart
  have hclose : ∀ (I : Set ℚ) [DecidablePred (· ∈ I)], (∀ a ∈ I, ∀ b ∈ I, a - window < b) →
      allowedIn str limit window calls I ≤ limit := by
    intro I _ hI
    refine countP_admitted_le hI fun answers call hprefixed hallowed => ?_
    obtain ⟨past, rfl, hcalls, hcount⟩ := exists_of_prefix_allowed hprefixed
    have hsub : past ++ [call.1] ⊆ calls := hcalls.subset
    have hpast := hsorted.sublist hcalls.sublist
    have htracks := tracks_after limit window hpast
      (hstr.mono fun t ht => hsub ht)
    have hlast : ∀ t ∈ past ++ [call.1], t ≤ call.1 := by
      intro t ht
      rcases List.mem_append.1 ht with ht | ht
      · exact (List.pairwise_append.1 hpast).2.2 t ht _ (List.mem_singleton_self _)
      · exact (List.mem_singleton.1 ht).le
    have hrecent := htracks.length_recent_le hlast (hnodup.sublist hcalls.sublist)
    rw [hallowed, eq_comm, decide_eq_true_eq] at hcount
    rw [List.map_append, map_fst_answered]
    exact hrecent.trans hcount
  intro start
  constructor
  · refine hclose _ fun a ha b hb => ?_
    have hstart := hb.1
    have hend := ha.2
    linarith
  · refine hclose _ fun a ha b hb => ?_
    have hstart := hb.1
    have hend := ha.2
    linarith

/-- With a window that takes them all in, calls of which two share a time pass the limit that
counts the times. -/
theorem exists_not_enforced (hsorted : calls.Pairwise (· ≤ ·))
    (hstr : Set.InjOn str {t | t ∈ calls}) (hnodup : ¬calls.Nodup) :
    ∃ limit window, ¬Enforced str limit window calls := by
  obtain ⟨first, rest, rfl⟩ : ∃ first rest, calls = first :: rest := by
    cases calls with
    | nil => exact absurd List.nodup_nil hnodup
    | cons first rest => exact ⟨first, rest, rfl⟩
  obtain ⟨last, hlast⟩ := (first :: rest).toFinset.bddAbove
  obtain ⟨window, hwindow⟩ := exists_nat_gt (last - first)
  refine ⟨(first :: rest).dedup.length, window, fun henforced => ?_⟩
  have hall : allowedIn str (first :: rest).dedup.length window (first :: rest)
      (Set.Ico first (first + window)) = (first :: rest).length := by
    have htimes : (answered (isAllowed str (first :: rest).dedup.length window) {}
        (first :: rest)).map Prod.fst = first :: rest := map_fst_answered _ _
    have hlength := congrArg List.length htimes
    rw [List.length_map] at hlength
    rw [allowedIn, ← hlength, List.countP_eq_length]
    intro call hcall
    obtain ⟨answers, others, hsplit⟩ := List.append_of_mem hcall
    have hfront : answers ++ [call] <+: answered
        (isAllowed str (first :: rest).dedup.length window) {} (first :: rest) :=
      ⟨others, by rw [hsplit, List.append_assoc]; rfl⟩
    obtain ⟨past, -, hprefixed, hallowed⟩ := exists_of_prefix_allowed hfront
    have hpast := hsorted.sublist hprefixed.sublist
    have htracks := tracks_after (first :: rest).dedup.length window hpast
      (hstr.mono fun t ht => hprefixed.subset ht)
    have htime : call.1 ∈ first :: rest :=
      hprefixed.subset (List.mem_append_right _ (List.mem_singleton_self _))
    have hfirst : first ≤ call.1 := by
      rcases List.mem_cons.1 htime with hsame | htime
      · exact hsame.ge
      · exact (List.pairwise_cons.1 hsorted).1 _ htime
    have hend : call.1 ≤ last := hlast (List.mem_toFinset.2 htime)
    rw [hallowed, Bool.and_eq_true, decide_eq_true_eq, decide_eq_true_eq]
    exact ⟨htracks.length_le_dedup hprefixed.subset, hfirst, by linarith⟩
  have hcount := (henforced first).1
  rw [hall] at hcount
  have hsame := (List.dedup_sublist (first :: rest)).eq_of_length_le hcount
  exact hnodup (hsame ▸ List.nodup_dedup _)

/-- Calls in order are kept to every limit in every window exactly if no two of them have the
same time. -/
theorem enforced_iff_nodup (str : ℚ → String) (calls : List ℚ) (hsorted : calls.Pairwise (· ≤ ·))
    (hstr : Set.InjOn str {t | t ∈ calls}) :
    (∀ limit window, Enforced str limit window calls) ↔ calls.Nodup := by
  constructor
  · intro h
    by_contra hnodup
    obtain ⟨limit, window, hnot⟩ := exists_not_enforced hsorted hstr hnodup
    exact hnot (h limit window)
  · exact fun hnodup _ _ => enforced_of_nodup hsorted hstr hnodup

/-! ## Two calls -/

/-- `str` of a whole number of seconds. -/
def secondsText (t : ℚ) : String :=
  toString t.num ++ ".0"

/-- Two calls a second apart are kept to one in half a minute. -/
theorem enforced_iff_nodup_seconds : Enforced secondsText 1 30 [1, 2] := by
  have hstr : Set.InjOn secondsText {t | t ∈ ([1, 2] : List ℚ)} := by
    intro s hs t ht
    simp only [Set.mem_ofPred_eq, List.mem_cons, List.not_mem_nil, or_false] at hs ht
    rcases hs with rfl | rfl <;> rcases ht with rfl | rfl <;> decide +kernel
  exact (enforced_iff_nodup secondsText [1, 2] (by decide +kernel) hstr).2 (by decide +kernel) 1 30

/-- Two calls at once are both allowed where one is the limit. -/
theorem exceeded_at_once :
    ([1, 1] : List ℚ).Pairwise (· ≤ ·) ∧ Set.InjOn secondsText {t | t ∈ ([1, 1] : List ℚ)} ∧
      ¬Enforced secondsText 1 60 [1, 1] := by
  refine ⟨by decide +kernel, ?_, fun h => absurd (h 1).1 (by decide +kernel)⟩
  intro s hs t ht _
  simp only [Set.mem_ofPred_eq, List.mem_cons, List.not_mem_nil, or_false, or_self] at hs ht
  exact hs.trans ht.symm

end UpstashSlidingWindowRateLimiter

end EnterpriseRag
