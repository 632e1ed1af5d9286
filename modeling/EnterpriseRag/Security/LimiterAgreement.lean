import EnterpriseRag.Security.RateLimiter

/-!
# The two limiters side by side

The limiter in memory counts the calls it admitted in the window with its older end, the one
in Redis every call in the window without it. `isAllowed_of_remembers` and
`isAllowed_of_tracks` say so, for the state after any calls. So the two agree on a call if and
only if as many admitted calls are exactly a window old as denied ones are less than a window
old, or both limiters are full (`agree_iff_level`).
-/

namespace EnterpriseRag

open SlidingWindow

/-- What the limiters are compared on. -/
def RateDecision.outcome (d : RateDecision) : Bool × ℕ :=
  (d.allowed, d.remaining)

namespace InMemorySlidingWindowRateLimiter

variable {limit window : ℕ} {past calls hits : List ℚ} {now : ℚ}

/-- The limiter admitted the call. -/
def wasAdmitted (answer : Except Raised RateDecision) : Bool :=
  answer.toOption.any (·.allowed)

/-- The calls that were admitted. -/
def admitted (limit window : ℕ) (calls : List ℚ) : List ℚ :=
  ((answered (isAllowed limit window) [] calls).filter (wasAdmitted ·.2)).map Prod.fst

/-- The calls that were not. -/
def denied (limit window : ℕ) (calls : List ℚ) : List ℚ :=
  ((answered (isAllowed limit window) [] calls).filter (!wasAdmitted ·.2)).map Prod.fst

/-- The calls in the window with its older end. -/
def held (window : ℕ) (now : ℚ) (times : List ℚ) : List ℚ :=
  times.filter (now - window ≤ ·)

theorem admitted_sublist : (admitted limit window calls).Sublist calls := by
  have h := (List.filter_sublist (p := fun call : ℚ × Except Raised RateDecision =>
    wasAdmitted call.2) (l := answered (isAllowed limit window) [] calls)).map Prod.fst
  rwa [map_fst_answered] at h

variable (limit window calls now) in
/-- Every call was admitted or denied. -/
theorem length_recent_eq : (recent (window : ℚ) now calls).length =
    (recent (window : ℚ) now (admitted limit window calls)).length +
      (recent (window : ℚ) now (denied limit window calls)).length := by
  have hcount : ∀ answers : List (ℚ × Except Raised RateDecision),
      (answers.map Prod.fst).countP (now - (window : ℚ) < ·) =
        ((answers.filter (wasAdmitted ·.2)).map Prod.fst).countP (now - (window : ℚ) < ·) +
          ((answers.filter (!wasAdmitted ·.2)).map Prod.fst).countP (now - (window : ℚ) < ·) := by
    intro answers
    induction answers with
    | nil => rfl
    | cons answer answers ih =>
      cases h : wasAdmitted answer.2 <;>
        simp only [List.map_cons, List.countP_cons, List.filter_cons, h, ih, Bool.not_true,
          Bool.not_false, if_true, Bool.false_eq_true, if_false] <;> omega
  have hcalls := hcount (answered (isAllowed limit window) [] calls)
  rw [map_fst_answered] at hcalls
  simpa only [recent, admitted, denied, List.countP_eq_length_filter] using hcalls

variable (window now) in
/-- The older end of the window makes the difference. -/
theorem length_held_eq (times : List ℚ) : (held window now times).length =
    (recent (window : ℚ) now times).length + times.count (now - window) := by
  induction times with
  | nil => rfl
  | cons t times ih =>
    rw [held, recent] at ih ⊢
    rcases lt_trichotomy (now - (window : ℚ)) t with ht | rfl | ht
    · rw [List.filter_cons_of_pos (by simpa using ht.le), List.filter_cons_of_pos (by simpa using ht),
        List.count_cons_of_ne ht.ne', List.length_cons, List.length_cons, ih]
      omega
    · rw [List.filter_cons_of_pos (by simp), List.filter_cons_of_neg (by simp),
        List.count_cons_self, List.length_cons, ih]
      omega
    · have hold : decide (now - (window : ℚ) ≤ t) = false := decide_eq_false (not_le.2 ht)
      have hold' : decide (now - (window : ℚ) < t) = false := decide_eq_false ht.not_gt
      rw [List.filter_cons, List.filter_cons, hold, hold', if_neg Bool.false_ne_true,
        if_neg Bool.false_ne_true, List.count_cons_of_ne ht.ne, ih]

/-- The hits are admitted calls in order, and any that is missing was too old for a call. -/
structure Remembers (limit window : ℕ) (past hits : List ℚ) : Prop where
  sorted : hits.Pairwise (· ≤ ·)
  sublist : hits.Sublist (admitted limit window past)
  held : ∀ now, (∀ t ∈ past, t ≤ now) →
    held window now hits = held window now (admitted limit window past)

variable (window now) in
/-- What a call is answered, and the hits after it. -/
theorem isAllowed_eq (hlimit : 0 < limit) (hsorted : hits.Pairwise (· ≤ ·)) :
    ∃ reset, isAllowed limit window hits now =
      (.ok ⟨decide ((held window now hits).length < limit),
          limit - ((held window now hits).length + 1), reset⟩,
        if (held window now hits).length < limit then held window now hits ++ [now]
        else held window now hits) := by
  rw [isAllowed, dropWhile_eq_filter hsorted, held]
  generalize hits.filter (now - (window : ℚ) ≤ ·) = kept
  dsimp only
  by_cases hfull : limit ≤ kept.length
  · rw [if_pos hfull]
    cases kept with
    | nil => exact absurd hfull (not_le.2 hlimit)
    | cons first kept =>
      refine ⟨first + window, ?_⟩
      rw [if_neg (not_lt.2 hfull), decide_eq_false (not_lt.2 hfull),
        Nat.sub_eq_zero_of_le (hfull.trans (Nat.le_succ _))]
  · refine ⟨(kept ++ [now]).headD now + window, ?_⟩
    rw [if_neg hfull, if_pos (not_le.1 hfull), decide_eq_true (not_le.1 hfull),
      List.length_append, List.length_singleton]

theorem held_append (times times' : List ℚ) :
    held window now (times ++ times') = held window now times ++ held window now times' :=
  List.filter_append _ _

theorem held_held {later : ℚ} (h : now ≤ later) (times : List ℚ) :
    held window later (held window now times) = held window later times := by
  rw [held, held, List.filter_filter]
  refine List.filter_congr fun t _ => ?_
  have hmono : later - window ≤ t → now - window ≤ t := fun ht => by linarith
  simpa using hmono

variable (limit window past now) in
/-- A call is admitted after the others, or not. -/
theorem admitted_concat : admitted limit window (past ++ [now]) = admitted limit window past ++
    if wasAdmitted (isAllowed limit window
      (after (isAllowed limit window) [] past) now).1 then [now] else [] := by
  rw [admitted, answered_concat, List.filter_append, List.map_append, List.filter_cons]
  split <;> rfl

variable (window) in
/-- After calls in order, the hits remember the admitted ones. -/
theorem remembers_after (hlimit : 0 < limit) (hsorted : calls.Pairwise (· ≤ ·)) :
    Remembers limit window calls (after (isAllowed limit window) [] calls) := by
  induction calls using List.reverseRecOn with
  | nil => exact ⟨List.Pairwise.nil, List.Sublist.refl _, fun _ _ => rfl⟩
  | append_singleton past now ih =>
    obtain ⟨hpast, -, hlast⟩ := List.pairwise_append.1 hsorted
    have h := ih hpast
    have hle : ∀ t ∈ past, t ≤ now := fun t ht => hlast t ht now (List.mem_singleton_self _)
    have hsub : (held window now (after (isAllowed limit window) [] past)).Sublist
        (admitted limit window past) := List.filter_sublist.trans h.sublist
    obtain ⟨reset, hanswer⟩ := isAllowed_eq window now hlimit h.sorted
    have hconcat := admitted_concat limit window past now
    rw [after_concat]
    rw [hanswer] at hconcat ⊢
    by_cases hallowed : (held window now (after (isAllowed limit window) [] past)).length < limit
    · rw [if_pos hallowed]
      rw [decide_eq_true hallowed, show wasAdmitted (.ok ⟨true, _, reset⟩) = true from rfl,
        if_pos rfl] at hconcat
      refine ⟨List.pairwise_append.2 ⟨h.sorted.sublist List.filter_sublist,
        List.pairwise_singleton _ _, ?_⟩, hconcat ▸ hsub.append_right [now], fun later hlater => ?_⟩
      · intro t ht t' ht'
        obtain rfl := List.mem_singleton.1 ht'
        exact hle t (admitted_sublist.subset (hsub.subset ht))
      · have hnow : now ≤ later := hlater now (by simp)
        have hkept := h.held later fun t ht => hlater t (List.mem_append_left _ ht)
        rw [hconcat, held_append, held_append, held_held hnow, hkept]
    · rw [if_neg hallowed]
      rw [decide_eq_false hallowed, show wasAdmitted (.ok ⟨false, _, reset⟩) = false from rfl,
        if_neg Bool.false_ne_true, List.append_nil] at hconcat
      refine ⟨h.sorted.sublist List.filter_sublist, hconcat ▸ hsub, fun later hlater => ?_⟩
      have hnow : now ≤ later := hlater now (by simp)
      rw [hconcat, held_held hnow]
      exact h.held later fun t ht => hlater t (List.mem_append_left _ ht)

/-- What a call is answered, by the calls admitted before it. -/
theorem outcome_isAllowed (hlimit : 0 < limit) (hsorted : (past ++ [now]).Pairwise (· ≤ ·)) :
    (isAllowed limit window (after (isAllowed limit window) [] past) now).1.map
        RateDecision.outcome =
      .ok (decide ((held window now (admitted limit window past)).length < limit),
        limit - ((held window now (admitted limit window past)).length + 1)) := by
  obtain ⟨hpast, -, hlast⟩ := List.pairwise_append.1 hsorted
  have h := remembers_after window hlimit hpast
  obtain ⟨reset, hanswer⟩ := isAllowed_eq window now hlimit h.sorted
  rw [hanswer, h.held now fun t ht => hlast t ht now (List.mem_singleton_self _)]
  rfl

end InMemorySlidingWindowRateLimiter

namespace UpstashSlidingWindowRateLimiter

variable {str : ℚ → String} {limit window : ℕ} {past : List ℚ} {now : ℚ}

variable (limit) in
/-- The members after a call later than the others : the call, and those in its window. -/
theorem length_entries_after (hwindow : 0 < window) (hsorted : (past ++ [now]).Pairwise (· < ·))
    (hstr : Set.InjOn str {t | t ∈ past ++ [now]}) (hclock : ∀ t ∈ past, 0 ≤ t) :
    (after (isAllowed str limit window) {} (past ++ [now])).entries.length =
      (recent (window : ℚ) now past).length + 1 := by
  have htracks := tracks_after limit window
    (hsorted.imp fun h => le_of_lt h) hstr
  obtain ⟨-, -, hlast⟩ := List.pairwise_append.1 hsorted
  have hself : (recent (window : ℚ) now (past ++ [now])).length =
      (recent (window : ℚ) now past).length + 1 := by
    rw [recent_concat_self (Nat.cast_pos.2 hwindow), List.length_append, List.length_singleton]
  refine le_antisymm ?_ ?_
  · have htexts := htracks.nodup_scores
    rw [← hself, ← List.length_map (f := Prod.snd)]
    refine (List.subperm_of_subset htexts fun t ht => ?_).length_le
    obtain ⟨entry, hentry, rfl⟩ := List.mem_map.1 ht
    have hpast := (htracks.sound entry hentry).2
    refine List.mem_filter.2 ⟨hpast, decide_eq_true ?_⟩
    rw [after_concat] at hentry
    rcases mem_entries_isAllowed.1 hentry with ⟨-, hother, hkept⟩ | rfl
    · rcases List.mem_append.1 hpast with hpast | hnow
      · exact hkept.resolve_left (not_lt.2 (hclock _ hpast))
      · rw [List.mem_singleton.1 hnow]
        exact sub_lt_self _ (Nat.cast_pos.2 hwindow)
    · exact sub_lt_self _ (Nat.cast_pos.2 hwindow)
  · rw [← hself]
    refine htracks.length_recent_le (fun t ht => ?_) (hsorted.imp fun h => ne_of_lt h)
    rcases List.mem_append.1 ht with ht | ht
    · exact (hlast t ht now (List.mem_singleton_self _)).le
    · exact (List.mem_singleton.1 ht).le

/-- What a call is answered, by the calls before it. -/
theorem outcome_isAllowed (hwindow : 0 < window) (hsorted : (past ++ [now]).Pairwise (· < ·))
    (hstr : Set.InjOn str {t | t ∈ past ++ [now]}) (hclock : ∀ t ∈ past, 0 ≤ t) :
    (isAllowed str limit window (after (isAllowed str limit window) {} past) now).1.outcome =
      (decide ((recent (window : ℚ) now past).length < limit),
        limit - ((recent (window : ℚ) now past).length + 1)) := by
  have hlength := length_entries_after limit hwindow hsorted hstr hclock
  rw [after_concat] at hlength
  show (decide ((isAllowed str limit window _ now).2.entries.length ≤ limit),
    limit - (isAllowed str limit window _ now).2.entries.length) = _
  rw [hlength]
  rfl

end UpstashSlidingWindowRateLimiter

/-! ## Agreement -/

namespace RateLimiter

open InMemorySlidingWindowRateLimiter (admitted denied held)

variable {str : ℚ → String} {limit window : ℕ} {calls past : List ℚ} {now : ℚ}

/-- The limiters allow the same calls, and say the same remains. -/
def Agree (str : ℚ → String) (limit window : ℕ) (calls : List ℚ) : Prop :=
  ((answered (InMemorySlidingWindowRateLimiter.isAllowed limit window) [] calls).map fun call =>
      call.2.map RateDecision.outcome) =
    (answered (UpstashSlidingWindowRateLimiter.isAllowed str limit window) {} calls).map
      fun call => .ok call.2.outcome

/-- As many calls that were admitted are exactly a window old as calls that were denied are less
than a window old, or both limiters are full. -/
def Level (limit window : ℕ) (past : List ℚ) (now : ℚ) : Prop :=
  (admitted limit window past).count (now - window) =
      (recent (window : ℚ) now (denied limit window past)).length ∨
    limit ≤ (held window now (admitted limit window past)).length ∧
      limit ≤ (recent (window : ℚ) now past).length

/-- On one call, after the same calls. -/
theorem outcome_eq_iff_level (hlimit : 0 < limit) (hwindow : 0 < window)
    (hsorted : (past ++ [now]).Pairwise (· < ·)) (hstr : Set.InjOn str {t | t ∈ past ++ [now]})
    (hclock : ∀ t ∈ past, 0 ≤ t) :
    (InMemorySlidingWindowRateLimiter.isAllowed limit window
        (after (InMemorySlidingWindowRateLimiter.isAllowed limit window) [] past) now).1.map
          RateDecision.outcome =
      .ok (UpstashSlidingWindowRateLimiter.isAllowed str limit window
        (after (UpstashSlidingWindowRateLimiter.isAllowed str limit window) {} past) now).1.outcome ↔
      Level limit window past now := by
  rw [InMemorySlidingWindowRateLimiter.outcome_isAllowed hlimit (hsorted.imp fun h => le_of_lt h),
    UpstashSlidingWindowRateLimiter.outcome_isAllowed hwindow hsorted hstr hclock,
    Except.ok.injEq, Prod.mk.injEq, decide_eq_decide, Level]
  have hheld := InMemorySlidingWindowRateLimiter.length_held_eq window now
    (admitted limit window past)
  have hrecent := InMemorySlidingWindowRateLimiter.length_recent_eq limit window past now
  omega

/-- On calls at different times the limiters agree exactly if they are level at every call. -/
theorem agree_iff_level (str : ℚ → String) (limit window : ℕ) (calls : List ℚ) (hlimit : 0 < limit)
    (hwindow : 0 < window) (hsorted : calls.Pairwise (· < ·)) (hclock : ∀ t ∈ calls, 0 ≤ t)
    (hstr : Set.InjOn str {t | t ∈ calls}) :
    Agree str limit window calls ↔
      ∀ past now, past ++ [now] <+: calls → Level limit window past now := by
  induction calls using List.reverseRecOn with
  | nil => simp [Agree, answered]
  | append_singleton calls last ih =>
    have hcalls : ∀ t ∈ calls, 0 ≤ t := fun t ht => hclock t (List.mem_append_left _ ht)
    have hbefore := ih (List.pairwise_append.1 hsorted).1 hcalls
      (hstr.mono fun t ht => List.mem_append_left _ ht)
    have hlast := outcome_eq_iff_level hlimit hwindow hsorted hstr hcalls
    rw [Agree, answered_concat, answered_concat, List.map_append, List.map_append]
    constructor
    · intro h past now hprefixed
      obtain ⟨hinit, hanswer⟩ := List.append_inj' h rfl
      rcases List.prefix_concat_iff.1 hprefixed with heq | hprefixed
      · obtain ⟨rfl, hnow⟩ := List.append_inj' heq rfl
        obtain rfl := List.singleton_inj.1 hnow
        exact hlast.1 (List.singleton_inj.1 hanswer)
      · exact hbefore.1 hinit past now hprefixed
    · intro h
      have hinit := hbefore.2 fun past now hprefixed =>
        h past now (hprefixed.trans (List.prefix_append _ _))
      have hanswer := hlast.2 (h calls last List.prefix_rfl)
      rw [Agree] at hinit
      rw [hinit, List.map_singleton, List.map_singleton, hanswer]

/-- A minute between calls keeps the limiters level. -/
theorem agree_iff_level_seconds :
    Agree UpstashSlidingWindowRateLimiter.secondsText 1 30 [1, 61] ↔
      ∀ past now, past ++ [now] <+: [1, 61] → Level 1 30 past now := by
  refine agree_iff_level _ 1 30 [1, 61] (by decide) (by decide) (by decide +kernel)
    (by decide +kernel) fun s hs t ht => ?_
  simp only [Set.mem_ofPred_eq, List.mem_cons, List.not_mem_nil, or_false] at hs ht
  rcases hs with rfl | rfl <;> rcases ht with rfl | rfl <;> decide +kernel

/-- A denied call counts in Redis, and not in memory. -/
theorem disagree_after_denied :
    ([0, 6, 12] : List ℚ).Pairwise (· < ·) ∧
      ¬Agree UpstashSlidingWindowRateLimiter.secondsText 1 10 [0, 6, 12] :=
  ⟨by decide +kernel, by unfold Agree; decide +kernel⟩

end RateLimiter

end EnterpriseRag
