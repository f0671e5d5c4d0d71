import AteStudio.Sse.FanOut

/-!
# Three numbers of one event

An event has an id from a counter of the process, its message a sequence number, and the consumer remembers what was
acknowledged.
-/

namespace AteStudio.Sse

open List

/-! ## The stream -/

structure Stored (δ : Type) where
  seq : Nat
  runId : String
  event : Event δ
deriving DecidableEq

structure JetStream (δ : Type) where
  lastSeq : Nat
  messages : List (Stored δ)
  -- For each run the sequence numbers that its consumer has acknowledged.
  acked : Dict String (List Nat)
  counter : Nat
deriving DecidableEq

inductive StreamMove (δ : Type) where
  | publish (runId : String) (content : δ)
  -- A message of somebody else on another subject of the stream.
  | other
  | restart
  -- One fetch of a replay, with the number of its messages that are acknowledged before the client is gone.
  | page (runId : String) (processed : Nat)

variable {δ : Type}

namespace JetStream

def empty : JetStream δ := { lastSeq := 0, messages := [], acked := ∅, counter := 0 }

variable (s : JetStream δ) (runId : String)

def ackedBy : List Nat := s.acked.getD runId []

def unacked : List (Stored δ) :=
  s.messages.filter fun m => m.runId = runId ∧ m.seq ∉ s.ackedBy runId

def replayBatchSize : Nat := 100

def fetch : List (Stored δ) := (s.unacked runId).take replayBatchSize

def ack (msgs : List (Stored δ)) : JetStream δ :=
  { s with acked := s.acked.set runId (s.ackedBy runId ++ msgs.map (·.seq)) }

def step : StreamMove δ → JetStream δ
  | .publish runId content => { s with
      lastSeq := s.lastSeq + 1
      counter := s.counter + 1
      messages := s.messages ++ [⟨s.lastSeq + 1, runId, ⟨s.counter + 1, content⟩⟩] }
  | .other => { s with lastSeq := s.lastSeq + 1 }
  | .restart => { s with counter := 0 }
  | .page runId processed => s.ack runId ((s.fetch runId).take processed)

end JetStream

/-! ## The replay -/

def eventId (runId : String) (event : Event δ) : String := runId ++ "-" ++ toString event.number

def afterDash? (text : List Char) : Option (List Char) :=
  if '-' ∈ text then some (text.reverse.takeWhile (· ≠ '-')).reverse else none

def startSeq? (lastEventId : String) : Option Nat := do
  let digits ← afterDash? lastEventId.toList
  if digits ≠ [] ∧ digits.all Char.isDigit then some (Nat.ofDigitChars 10 digits 0 + 1) else none

/-- `gaps` are the moves of others before each fetch, at least as many as there are pages. -/
def replayPages (runId : String) (startSeq : Nat) :
    List (List (StreamMove δ)) → JetStream δ → Option (List (Stored δ) × JetStream δ)
  | [], _ => none
  | gap :: gaps, s =>
    let s := Runs.run JetStream.step s gap
    let msgs := s.fetch runId
    let s := s.ack runId msgs
    let yielded := msgs.filter (startSeq ≤ ·.seq)
    if msgs.length < JetStream.replayBatchSize then some (yielded, s)
    else (replayPages runId startSeq gaps s).map fun r => (yielded ++ r.1, r.2)

def replayFromJetstream (runId lastEventId : String) (gaps : List (List (StreamMove δ))) (s : JetStream δ) :
    Option (List (Stored δ) × JetStream δ) :=
  match startSeq? lastEventId with
  | none => some ([], s)
  | some startSeq => replayPages runId startSeq gaps s

def Quiet (runId : String) : StreamMove δ → Prop
  | .restart => False
  | .page other _ => other ≠ runId
  | _ => True

def JetStream.after (s : JetStream δ) (runId : String) (last : Stored δ) : List (Stored δ) :=
  s.messages.filter fun m => m.runId = runId ∧ last.seq < m.seq

/-- Nothing after `last` is acknowledged, and everything between its id and its place is. -/
structure Aligned (s : JetStream δ) (runId : String) (last : Stored δ) : Prop where
  later : ∀ m ∈ s.messages, m.runId = runId → last.seq < m.seq → m.seq ∉ s.ackedBy runId
  earlier : ∀ m ∈ s.messages, m.runId = runId → last.event.number < m.seq → m.seq ≤ last.seq → m.seq ∈ s.ackedBy runId

/-! ## Ids -/

theorem toList_toString (n : Nat) : (toString n).toList = Nat.toDigits 10 n := by
  rw [Nat.toString_eq_repr, Nat.repr, String.toList_ofList]

theorem isDigit_toDigits {n : Nat} {c : Char} (h : c ∈ Nat.toDigits 10 n) : c.isDigit = true :=
  Nat.isDigit_of_mem_toDigits (by decide) (by decide) h

theorem afterDash?_append {before digits : List Char} (h : '-' ∉ digits) :
    afterDash? (before ++ '-' :: digits) = some digits := by
  have htake : (before ++ '-' :: digits).reverse.takeWhile (· ≠ '-') = digits.reverse := by
    rw [reverse_append, reverse_cons, append_assoc, takeWhile_append_of_pos]
    · simp
    · intro c hc
      simpa using fun heq : c = '-' => h (heq ▸ mem_reverse.mp hc)
  rw [afterDash?, if_pos (by simp), htake, reverse_reverse]

theorem startSeq?_eventId (runId : String) (event : Event δ) :
    startSeq? (eventId runId event) = some (event.number + 1) := by
  have hdash : '-' ∉ Nat.toDigits 10 event.number := fun h => absurd (isDigit_toDigits h) (by decide)
  have hid : (eventId runId event).toList = runId.toList ++ '-' :: Nat.toDigits 10 event.number := by
    rw [eventId, String.toList_append, String.toList_append, toList_toString]
    simp
  have hdigits : Nat.toDigits 10 event.number ≠ [] ∧ (Nat.toDigits 10 event.number).all Char.isDigit := by
    refine ⟨Nat.toDigits_ne_nil, all_eq_true.mpr fun c => isDigit_toDigits⟩
  rw [startSeq?, hid, afterDash?_append hdash]
  change (if _ then some (Nat.ofDigitChars 10 (Nat.toDigits 10 event.number) 0 + 1) else none) = _
  rw [if_pos hdigits, Nat.ofDigitChars_ten_toDigits]

/-! ## The stream along a run -/

open JetStream

section Stream

variable {s s' s'' : JetStream δ} {runId : String}

@[simp] theorem ackedBy_ack (s : JetStream δ) (runId other : String) (msgs : List (Stored δ)) :
    (s.ack runId msgs).ackedBy other =
      if other = runId then s.ackedBy runId ++ msgs.map (·.seq) else s.ackedBy other := by
  simp only [ackedBy, JetStream.ack, Dict.getD, Dict.get?_set]
  split <;> rfl

theorem mem_unacked {m : Stored δ} :
    m ∈ s.unacked runId ↔ m ∈ s.messages ∧ m.runId = runId ∧ m.seq ∉ s.ackedBy runId := by
  rw [unacked, mem_filter, decide_eq_true_eq]

/-- Sequence numbers increase, and no event has a number above the one of its message. -/
structure JetStream.Ordered (s : JetStream δ) : Prop where
  sorted : s.messages.Pairwise (·.seq < ·.seq)
  bound : ∀ m ∈ s.messages, m.seq ≤ s.lastSeq
  number : ∀ m ∈ s.messages, m.event.number ≤ m.seq
  counter : s.counter ≤ s.lastSeq
  acked : ∀ runId, ∀ seq ∈ s.ackedBy runId, seq ≤ s.lastSeq

theorem ordered_empty : (empty : JetStream δ).Ordered :=
  ⟨.nil, fun _ => (nomatch ·), fun _ => (nomatch ·), Nat.le_refl 0, fun _ _ => (nomatch ·)⟩

theorem JetStream.Ordered.ack (h : s.Ordered) {msgs : List (Stored δ)} (hmsgs : ∀ m ∈ msgs, m ∈ s.messages) :
    (s.ack runId msgs).Ordered := by
  refine { h with acked := fun other seq hseq => ?_ }
  rw [ackedBy_ack] at hseq
  split at hseq
  · rcases mem_append.mp hseq with hseq | hseq
    · exact h.acked runId seq hseq
    · obtain ⟨m, hm, rfl⟩ := mem_map.mp hseq
      exact h.bound m (hmsgs m hm)
  · exact h.acked other seq hseq

theorem fetch_subset {m : Stored δ} (h : m ∈ s.fetch runId) : m ∈ s.messages :=
  (mem_unacked.mp (mem_of_mem_take h)).1

theorem ordered_step (h : s.Ordered) (m : StreamMove δ) : (s.step m).Ordered := by
  cases m with
  | publish runId content =>
    have hnew : ∀ m ∈ s.messages ++ [(⟨s.lastSeq + 1, runId, ⟨s.counter + 1, content⟩⟩ : Stored δ)],
        m ∈ s.messages ∨ m = ⟨s.lastSeq + 1, runId, ⟨s.counter + 1, content⟩⟩ := by simp
    have hcounter := h.counter
    constructor
    · refine pairwise_append.mpr ⟨h.sorted, pairwise_singleton .., fun m hm m' hm' => ?_⟩
      obtain rfl := mem_singleton.mp hm'
      exact Nat.lt_succ_of_le (h.bound m hm)
    · intro m hm
      rcases hnew m hm with hm | rfl
      · exact Nat.le_succ_of_le (h.bound m hm)
      · exact Nat.le_refl _
    · intro m hm
      rcases hnew m hm with hm | rfl
      · exact h.number m hm
      · exact Nat.succ_le_succ hcounter
    · exact Nat.succ_le_succ hcounter
    · exact fun other seq hseq => Nat.le_succ_of_le (h.acked other seq hseq)
  | other =>
    exact { h with
      bound := fun m hm => Nat.le_succ_of_le (h.bound m hm)
      counter := Nat.le_succ_of_le h.counter
      acked := fun other seq hseq => Nat.le_succ_of_le (h.acked other seq hseq) }
  | restart => exact { h with counter := Nat.zero_le _ }
  | page runId processed => exact h.ack fun m hm => fetch_subset (mem_of_mem_take hm)

theorem ordered_run (moves : List (StreamMove δ)) : (Runs.run step .empty moves).Ordered :=
  @Runs.run_always _ _ _ _ Ordered (fun _ m hs => ordered_step hs m) ordered_empty moves

structure JetStream.Grows (s s' : JetStream δ) : Prop where
  lastSeq : s.lastSeq ≤ s'.lastSeq
  messages : ∃ added, s'.messages = s.messages ++ added ∧ ∀ m ∈ added, s.lastSeq < m.seq

theorem JetStream.Grows.refl (s : JetStream δ) : s.Grows s := ⟨Nat.le_refl _, [], by simp, fun _ => (nomatch ·)⟩

theorem JetStream.Grows.trans (h : s.Grows s') (h' : s'.Grows s'') : s.Grows s'' := by
  obtain ⟨added, hadded, hlater⟩ := h.messages
  obtain ⟨added', hadded', hlater'⟩ := h'.messages
  refine ⟨Nat.le_trans h.lastSeq h'.lastSeq, added ++ added', by rw [hadded', hadded, append_assoc], fun m hm => ?_⟩
  rcases mem_append.mp hm with hm | hm
  · exact hlater m hm
  · exact Nat.lt_of_le_of_lt h.lastSeq (hlater' m hm)

theorem grows_step (s : JetStream δ) (m : StreamMove δ) : s.Grows (s.step m) := by
  cases m with
  | publish runId content => exact ⟨Nat.le_succ _, _, rfl, by simp⟩
  | other => exact ⟨Nat.le_succ _, [], (append_nil _).symm, fun _ => (nomatch ·)⟩
  | restart => exact ⟨Nat.le_refl _, [], (append_nil _).symm, fun _ => (nomatch ·)⟩
  | page runId processed => exact ⟨Nat.le_refl _, [], (append_nil _).symm, fun _ => (nomatch ·)⟩

theorem ackedBy_step {m : StreamMove δ} (h : Quiet runId m) : (s.step m).ackedBy runId = s.ackedBy runId := by
  cases m with
  | page other processed =>
    change (s.ack other _).ackedBy runId = _
    rw [ackedBy_ack, if_neg (Ne.symm h)]
  | restart => exact h.elim
  | _ => rfl

theorem gap_run (s : JetStream δ) (h : s.Ordered) {gap : List (StreamMove δ)} (hgap : ∀ m ∈ gap, Quiet runId m) :
    (Runs.run step s gap).Ordered ∧ s.Grows (Runs.run step s gap) ∧
      (Runs.run step s gap).ackedBy runId = s.ackedBy runId := by
  induction gap generalizing s with
  | nil => exact ⟨h, .refl s, rfl⟩
  | cons m gap ih =>
    obtain ⟨hm, hrest⟩ := forall_mem_cons.mp hgap
    obtain ⟨hordered, hgrows, hacked⟩ := ih (s.step m) (ordered_step h m) hrest
    exact ⟨hordered, (grows_step s m).trans hgrows, hacked.trans (ackedBy_step hm)⟩

end Stream

/-! ## What a replay yields -/

section Pages

variable {s s' : JetStream δ} {runId : String} {startSeq : Nat}

def toCome (s s' : JetStream δ) (runId : String) : List (Stored δ) :=
  s'.messages.filter fun m => m.runId = runId ∧ m.seq ∉ s.ackedBy runId

theorem toCome_eq (h : s.Ordered) {added : List (Stored δ)} (hadded : s'.messages = s.messages ++ added)
    (hlater : ∀ m ∈ added, s.lastSeq < m.seq) :
    toCome s s' runId = s.unacked runId ++ added.filter (·.runId = runId) := by
  rw [toCome, hadded, filter_append, unacked]
  congr 1
  apply filter_congr
  intro m hm
  have hnew : m.seq ∉ s.ackedBy runId := fun hacked => by
    have := h.acked runId m.seq hacked
    have := hlater m hm
    omega
  simp [hnew]

theorem filter_notMem_take {msgs : List (Stored δ)} (h : msgs.Pairwise (·.seq < ·.seq)) (n : Nat) :
    msgs.filter (fun m => m.seq ∉ (msgs.take n).map (·.seq)) = msgs.drop n := by
  have hsplit := take_append_drop n msgs
  have hbefore : ∀ m ∈ msgs.take n, ∀ m' ∈ msgs.drop n, m.seq < m'.seq := by
    rw [← hsplit] at h
    exact (pairwise_append.mp h).2.2
  conv_lhs => rw [← hsplit]
  rw [filter_append, hsplit, filter_eq_nil_iff.mpr, nil_append, filter_eq_self]
  · intro m' hm'
    simp only [decide_eq_true_eq]
    intro hmem
    obtain ⟨m, hm, heq⟩ := mem_map.mp hmem
    have := hbefore m hm m' hm'
    omega
  · intro m hm
    simp only [decide_eq_true_eq, not_not]
    exact mem_map_of_mem hm

theorem unacked_ack (h : s.Ordered) :
    (s.ack runId (s.fetch runId)).unacked runId = (s.unacked runId).drop replayBatchSize := by
  have hsorted : (s.unacked runId).Pairwise (·.seq < ·.seq) := h.sorted.sublist filter_sublist
  rw [← filter_notMem_take hsorted, unacked, unacked, filter_filter]
  apply filter_congr
  intro m _
  rw [ackedBy_ack, if_pos rfl]
  simp only [mem_append, fetch, unacked]
  grind

theorem replayPages_spec (h : s.Ordered) {gaps : List (List (StreamMove δ))}
    (hgaps : ∀ gap ∈ gaps, ∀ m ∈ gap, Quiet runId m) {yielded : List (Stored δ)}
    (hrun : replayPages runId startSeq gaps s = some (yielded, s')) :
    s.Grows s' ∧ yielded = (toCome s s' runId).filter (startSeq ≤ ·.seq) := by
  induction gaps generalizing s yielded with
  | nil => cases hrun
  | cons gap gaps ih =>
    obtain ⟨hgap, hrest⟩ := forall_mem_cons.mp hgaps
    obtain ⟨hordered, hgrows, hacked⟩ := gap_run s h hgap
    -- Only the acknowledgements of the run count, and the gap has made none.
    have hview : toCome s s' runId = toCome (Runs.run step s gap) s' runId := by
      rw [toCome, toCome, hacked]
    rw [hview]
    clear hview
    generalize hs₁ : Runs.run step s gap = s₁ at hordered hgrows hacked
    rw [replayPages, hs₁] at hrun
    split at hrun
    · next hshort =>
      cases hrun
      have hall : s₁.fetch runId = s₁.unacked runId := by
        rw [fetch] at hshort ⊢
        rw [length_take] at hshort
        apply take_of_length_le
        omega
      have hmessages : (s₁.ack runId (s₁.fetch runId)).messages = s₁.messages ++ [] := (append_nil _).symm
      refine ⟨hgrows.trans ⟨Nat.le_refl _, [], hmessages, fun _ => (nomatch ·)⟩, ?_⟩
      rw [toCome_eq hordered hmessages (fun _ => (nomatch ·)), hall, filter_nil, append_nil]
    · obtain ⟨⟨rest, s''⟩, hpages, heq⟩ := Option.map_eq_some_iff.mp hrun
      cases heq
      have hordered₂ : (s₁.ack runId (s₁.fetch runId)).Ordered := hordered.ack fun _ => fetch_subset
      obtain ⟨hgrows₂, hrestEq⟩ := ih hordered₂ hrest hpages
      obtain ⟨added, hadded, hlater⟩ := hgrows₂.messages
      refine ⟨hgrows.trans ⟨hgrows₂.lastSeq, added, hadded, hlater⟩, ?_⟩
      rw [hrestEq, toCome_eq hordered₂ hadded hlater, toCome_eq hordered hadded hlater, unacked_ack hordered,
        ← filter_append, ← append_assoc, fetch, take_append_drop]

theorem replayPages_nil (gaps : List (List (StreamMove δ))) (s : JetStream δ) :
    replayPages runId startSeq ([] :: gaps) s =
      if (s.fetch runId).length < replayBatchSize then
        some ((s.fetch runId).filter (startSeq ≤ ·.seq), s.ack runId (s.fetch runId))
      else (replayPages runId startSeq gaps (s.ack runId (s.fetch runId))).map fun r =>
        ((s.fetch runId).filter (startSeq ≤ ·.seq) ++ r.1, r.2) := rfl

theorem replayPages_ends (h : s.Ordered) :
    ∃ k, (replayPages runId startSeq (List.replicate k ([] : List (StreamMove δ))) s).isSome := by
  induction hn : (s.unacked runId).length using Nat.strongRecOn generalizing s with
  | _ n ih =>
    by_cases hshort : (s.fetch runId).length < replayBatchSize
    · refine ⟨1, ?_⟩
      rw [replicate_one, replayPages_nil, if_pos hshort]
      rfl
    · have hordered₂ : (s.ack runId (s.fetch runId)).Ordered := h.ack fun _ => fetch_subset
      have hless : ((s.ack runId (s.fetch runId)).unacked runId).length < n := by
        rw [unacked_ack h, length_drop, hn]
        rw [fetch, length_take, hn] at hshort
        simp only [replayBatchSize] at hshort ⊢
        omega
      obtain ⟨k, hk⟩ := ih _ hless hordered₂ rfl
      refine ⟨k + 1, ?_⟩
      rw [replicate_succ, replayPages_nil, if_neg hshort, Option.isSome_map]
      exact hk

theorem toCome_eq_after_iff (h : s.Ordered) (hgrows : s.Grows s') {last : Stored δ} (hlast : last ∈ s.messages) :
    (toCome s s' runId).filter (last.event.number + 1 ≤ ·.seq) = s'.after runId last ↔ Aligned s runId last := by
  have hnumber := h.number last hlast
  obtain ⟨added, hadded, hlater⟩ := hgrows.messages
  rw [toCome, JetStream.after, filter_filter]
  constructor
  · intro heq
    have hiff : ∀ m ∈ s.messages, m.runId = runId →
        (m.seq ∉ s.ackedBy runId ∧ last.event.number + 1 ≤ m.seq ↔ last.seq < m.seq) := by
      intro m hm hrun
      have hmem := congrArg (m ∈ ·) heq
      have hm' : m ∈ s'.messages := hadded ▸ mem_append_left added hm
      simp only [mem_filter, hm', hrun, true_and, decide_eq_true_eq, Bool.and_eq_true] at hmem
      rw [and_comm]
      exact iff_of_eq hmem
    constructor
    · exact fun m hm hrun hseq => ((hiff m hm hrun).mpr hseq).1
    · intro m hm hrun habove hbelow
      by_contra hacked
      have := (hiff m hm hrun).mp ⟨hacked, habove⟩
      omega
  · rintro ⟨hlaterAcked, hearlier⟩
    apply filter_congr
    intro m hm
    rw [hadded] at hm
    by_cases hrun : m.runId = runId
    · have hiff : (last.event.number + 1 ≤ m.seq ∧ m.seq ∉ s.ackedBy runId) ↔ last.seq < m.seq := by
        rcases mem_append.mp hm with hm | hm
        · constructor
          · rintro ⟨habove, hacked⟩
            by_contra hbelow
            exact hacked (hearlier m hm hrun habove (by omega))
          · exact fun hseq => ⟨by omega, hlaterAcked m hm hrun hseq⟩
        · have hnew := hlater m hm
          have hbound := h.bound last hlast
          refine ⟨fun _ => by omega, fun _ => ⟨by omega, fun hacked => ?_⟩⟩
          have := h.acked runId m.seq hacked
          omega
      rw [Bool.eq_iff_iff]
      simpa only [Bool.and_eq_true, decide_eq_true_eq, hrun, true_and] using hiff
    · simp [hrun]

end Pages

/-- A replay ends, and yields the later messages of the run exactly when the numbers are aligned. -/
theorem replay_exact_iff (history : List (StreamMove δ)) (runId : String) (last : Stored δ)
    (hlast : last ∈ (Runs.run JetStream.step .empty history).messages) :
    (∃ k, (replayFromJetstream runId (eventId runId last.event) (List.replicate k [])
      (Runs.run JetStream.step .empty history)).isSome) ∧
    ∀ gaps : List (List (StreamMove δ)), (∀ gap ∈ gaps, ∀ m ∈ gap, Quiet runId m) → ∀ yielded after,
      replayFromJetstream runId (eventId runId last.event) gaps (Runs.run JetStream.step .empty history) =
        some (yielded, after) →
      (yielded = after.after runId last ↔ Aligned (Runs.run JetStream.step .empty history) runId last) := by
  have hordered := ordered_run history
  simp only [replayFromJetstream, startSeq?_eventId]
  refine ⟨replayPages_ends hordered, fun gaps hgaps yielded after hrun => ?_⟩
  obtain ⟨hgrows, rfl⟩ := replayPages_spec hordered hgaps hrun
  exact toCome_eq_after_iff hordered hgrows hlast

/-! ## Two events -/

def firstStored (seq : Nat) : Stored String := ⟨seq, "r", ⟨1, "a"⟩⟩

def secondStored (seq : Nat) : Stored String := ⟨seq, "r", ⟨2, "b"⟩⟩

/-- A stream of its own, and a client that was away for the second event. -/
theorem replay_exact_iff_second : ∃ after,
    replayFromJetstream "r" "r-1" [[]] (Runs.run JetStream.step .empty [.publish "r" "a", .publish "r" "b"]) =
      some ([secondStored 2], after) ∧ [secondStored 2] = after.after "r" (firstStored 1) := by
  refine ⟨Runs.run step .empty [.publish "r" "a", .publish "r" "b", .page "r" 2], by decide, ?_⟩
  have hexact := (replay_exact_iff [.publish "r" "a", .publish "r" "b"] "r" (firstStored 1) (by decide)).2 [[]] (by simp)
  exact (hexact _ _ (by decide)).mpr ⟨by decide, by decide⟩

/-- One event comes again, and another does not. -/
theorem replay_not_exact :
    (replayFromJetstream "r" "r-1" [[]]
      (Runs.run JetStream.step .empty [.other, .publish "r" "a", .publish "r" "b"])).map Prod.fst =
        some [firstStored 2, secondStored 3] ∧
    (replayFromJetstream "r" "r-1" [[]]
      (Runs.run JetStream.step .empty [.publish "r" "a", .publish "r" "b", .page "r" 2])).map Prod.fst = some [] := by
  decide

end AteStudio.Sse
