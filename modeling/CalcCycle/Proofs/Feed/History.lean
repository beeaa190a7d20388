import CalcCycle.Feed.Memory
import CalcCycle.Proofs.Sorted
import Mathlib.Data.Int.Order.Basic
import Mathlib.Data.List.Induction
import Mathlib.Data.List.Nodup

/-! The history of a feed held in memory, over any calls and any readings of the clock. Tokens are issued in
increasing order and never twice; from its issue to its release a token answers as the values that were
current when it was issued; and before and after that it is not known. -/

namespace CalcCycle

/-! ### Writes to the feed -/

inductive FeedWrite
  | set (spec : Specification) (p : Payload)
  | remove (spec : Specification)
  | clear
  | load (text : String)

namespace FeedWrite

def apply (f : MemoryFeed) : FeedWrite → MemoryFeed
  | .set spec p => f.setValue spec p
  | .remove spec => (f.removeValue spec).2
  | .clear => f.clear
  | .load text => (f.loadJson text).2

/-- A write concerns the current values only. -/
theorem apply_eq (f : MemoryFeed) (x : FeedWrite) :
    x.apply f = { f with current := (x.apply f).current } := by
  cases x with
  | load text =>
    have hfold : ∀ (records : List LiveRecord) (f : MemoryFeed),
        records.foldl (fun f r => f.setValue r.specification r.payload) f =
          { f with current := (records.foldl (fun f r => f.setValue r.specification r.payload) f).current } := by
      intro records
      induction records with
      | nil => exact fun _ => rfl
      | cons r rest ih => exact fun f => ih (f.setValue r.specification r.payload)
    change (f.loadJson text).2 = { f with current := (f.loadJson text).2.current }
    unfold MemoryFeed.loadJson
    split
    · rfl
    · exact hfold _ f
  | _ => rfl

end FeedWrite

/-- A snapshot has a token above all that were taken before, and the current values. -/
theorem MemoryFeed.takeSnapshot_new (f : MemoryFeed) (now : Int) :
    f.last < (f.takeSnapshot now).1.value ∧ (f.takeSnapshot now).2.last = (f.takeSnapshot now).1.value ∧
      ∀ t, (f.takeSnapshot now).2.snapshots.get? t =
        if t = (f.takeSnapshot now).1 then some f.current else f.snapshots.get? t := by
  refine ⟨?_, rfl, fun t => SortedMap.get?_insert _ _ _ _⟩
  change f.last < max now (f.last + 1)
  omega

/-- A release takes away the values of its token, if there are any, and nothing else. -/
theorem MemoryFeed.release_keeps (f : MemoryFeed) (token : Token) :
    (f.release token).2.current = f.current ∧ (f.release token).2.last = f.last ∧
      ∀ t, (f.release token).2.snapshots.get? t = if t = token then none else f.snapshots.get? t := by
  unfold release
  split_ifs with hactive
  · exact ⟨rfl, rfl, fun t => SortedMap.get?_erase _ _ _⟩
  · refine ⟨rfl, rfl, fun t => ?_⟩
    split_ifs with ht
    · simpa [ht, isActive, SortedMap.contains] using hactive
    · rfl

/-! ### Calls and issues -/

inductive FeedCall
  | write (x : FeedWrite)
  /-- At a reading of the clock. -/
  | snapshot (now : Int)
  | query (token : Token) (r : Requirement)
  | release (token : Token)

/-- A token that was issued, with the values that were current then and the calls that have been made since. -/
structure Issue where
  token : Token
  values : LiveValues
  since : List FeedCall

namespace FeedCall

/-- The feed after the call. -/
def apply (f : MemoryFeed) : FeedCall → MemoryFeed
  | .write x => x.apply f
  | .snapshot now => (MemoryFeed.source.snapshot f now).2
  | .query token r => (MemoryFeed.source.query f token r).2
  | .release token => (MemoryFeed.source.release f token).2

/-- The token that the call issues, if it issues one. -/
def issued (f : MemoryFeed) (since : List FeedCall) : FeedCall → List Issue
  | .snapshot now => [⟨(f.takeSnapshot now).1, f.current, since⟩]
  | _ => []

def releases (token : Token) : FeedCall → Bool
  | .release t => t == token
  | _ => false

/-- A call that takes no snapshot issues nothing, and takes away the values of the token that it releases. -/
theorem snapshot_or_quiet (f : MemoryFeed) (call : FeedCall) :
    (∃ now, call = .snapshot now) ∨
      (∀ since, call.issued f since = []) ∧ (call.apply f).last = f.last ∧
        ∀ token, (call.apply f).snapshots.get? token =
          if call.releases token then none else f.snapshots.get? token := by
  cases call with
  | write x =>
    refine .inr ⟨fun _ => rfl, ?_, fun token => ?_⟩
    · rw [apply, FeedWrite.apply_eq]
    · rw [apply, FeedWrite.apply_eq]
      rfl
  | snapshot now => exact .inl ⟨now, rfl⟩
  | query token r => exact .inr ⟨fun _ => rfl, rfl, fun _ => rfl⟩
  | release token =>
    obtain ⟨-, hlast, hget⟩ := f.release_keeps token
    refine .inr ⟨fun _ => rfl, hlast, fun t => ?_⟩
    simp only [releases, beq_iff_eq, eq_comm (a := token)]
    exact hget t

end FeedCall

namespace Issue

/-- The token has not been released. -/
def standing (i : Issue) : Bool := i.since.all fun call => !call.releases i.token

def later (call : FeedCall) (i : Issue) : Issue := { i with since := i.since ++ [call] }

theorem standing_later (call : FeedCall) (i : Issue) :
    (i.later call).standing = (i.standing && !call.releases i.token) := by
  simp [standing, later]

end Issue

namespace MemoryFeed

/-- The feed after the calls. -/
def after (f : MemoryFeed) (calls : List FeedCall) : MemoryFeed := calls.foldl FeedCall.apply f

/-- The tokens that are issued in the course of the calls, in order. -/
def issues (f : MemoryFeed) : List FeedCall → List Issue
  | [] => []
  | call :: rest => call.issued f rest ++ issues (call.apply f) rest

theorem after_concat (f : MemoryFeed) (calls : List FeedCall) (call : FeedCall) :
    f.after (calls ++ [call]) = call.apply (f.after calls) := by
  simp [after, List.foldl_append]

theorem issues_concat (f : MemoryFeed) (calls : List FeedCall) (call : FeedCall) :
    f.issues (calls ++ [call]) = (f.issues calls).map (·.later call) ++ call.issued (f.after calls) [] := by
  induction calls generalizing f with
  | nil => simp [issues, after]
  | cons first rest ih =>
    have hfirst : first.issued f (rest ++ [call]) = (first.issued f rest).map (·.later call) := by
      cases first <;> rfl
    rw [List.cons_append, issues, issues, ih, hfirst, List.map_append, List.append_assoc]
    rfl

/-! ### The books of the feed -/

/-- The feed has the values of the tokens that stand, and nothing else. -/
structure Booked (f : MemoryFeed) (is : List Issue) : Prop where
  increasing : is.Pairwise fun a b => a.token.value < b.token.value
  positive : ∀ i ∈ is, 1 ≤ i.token.value
  le_last : ∀ i ∈ is, i.token.value ≤ f.last
  last_nonneg : 0 ≤ f.last
  snapshots : ∀ token values, f.snapshots.get? token = some values ↔
    ∃ i ∈ is, i.standing = true ∧ i.token = token ∧ i.values = values

namespace Booked
variable {f : MemoryFeed} {is : List Issue}

theorem empty : Booked .empty [] where
  increasing := .nil
  positive := List.forall_mem_nil _
  le_last := List.forall_mem_nil _
  last_nonneg := Int.le_refl _
  snapshots := by simp [MemoryFeed.empty]

theorem nodup_tokens (h : Booked f is) : (is.map Issue.token).Nodup :=
  List.pairwise_map.2 (h.increasing.imp fun hlt heq => Int.ne_of_lt hlt (congrArg Token.value heq))

theorem get?_of_standing (h : Booked f is) {i : Issue} (hi : i ∈ is) (hs : i.standing = true) :
    f.snapshots.get? i.token = some i.values :=
  (h.snapshots _ _).2 ⟨i, hi, hs, rfl, rfl⟩

theorem get?_eq_none (h : Booked f is) {token : Token} (hno : ∀ i ∈ is, i.standing = true → i.token ≠ token) :
    f.snapshots.get? token = none := by
  cases hv : f.snapshots.get? token with
  | none => rfl
  | some values =>
    obtain ⟨i, hi, hs, ht, -⟩ := (h.snapshots _ _).1 hv
    exact absurd ht (hno i hi hs)

/-- A call that issues no token takes away the values of the one that it releases, if it releases one. -/
theorem retold (h : Booked f is) {f' : MemoryFeed} {call : FeedCall} (hlast : f'.last = f.last)
    (hget : ∀ token, f'.snapshots.get? token = if call.releases token then none else f.snapshots.get? token) :
    Booked f' (is.map (·.later call)) where
  increasing := List.pairwise_map.2 h.increasing
  positive := List.forall_mem_map.2 h.positive
  le_last := List.forall_mem_map.2 (hlast ▸ h.le_last)
  last_nonneg := hlast ▸ h.last_nonneg
  snapshots token values := by
    simp only [hget, List.mem_map, exists_exists_and_eq_and, Issue.standing_later]
    cases hr : call.releases token with
    | false =>
      rw [if_neg Bool.false_ne_true, h.snapshots]
      constructor
      · rintro ⟨i, hi, hs, rfl, rfl⟩
        exact ⟨i, hi, by simp [hs, hr], rfl, rfl⟩
      · rintro ⟨i, hi, hs, rfl, rfl⟩
        exact ⟨i, hi, (Bool.and_eq_true_iff.1 hs).1, rfl, rfl⟩
    | true =>
      rw [if_pos rfl]
      refine iff_of_false nofun ?_
      rintro ⟨i, -, hs, rfl, -⟩
      change (i.standing && !call.releases i.token) = true at hs
      simp [show call.releases i.token = true from hr] at hs

/-- A token that is issued is above all that were issued before, so no snapshot is overwritten. -/
theorem issued (h : Booked f is) (now : Int) :
    Booked (f.takeSnapshot now).2 (is ++ [⟨(f.takeSnapshot now).1, f.current, []⟩]) := by
  obtain ⟨hnew, hlast, hget⟩ := f.takeSnapshot_new now
  have hnonneg := h.last_nonneg
  have hpositive : 1 ≤ (f.takeSnapshot now).1.value := by omega
  have hold : ∀ i ∈ is, i.token.value < (f.takeSnapshot now).1.value :=
    fun i hi => lt_of_le_of_lt (h.le_last i hi) hnew
  refine
    { increasing := List.pairwise_append.2
        ⟨h.increasing, List.pairwise_singleton _ _, fun i hi j hj => List.mem_singleton.1 hj ▸ hold i hi⟩
      positive := List.forall_mem_append.2 ⟨h.positive, List.forall_mem_singleton.2 hpositive⟩
      le_last := ?_
      last_nonneg := by omega
      snapshots := fun token values => ?_ }
  · rw [hlast]
    exact List.forall_mem_append.2
      ⟨fun i hi => Int.le_of_lt (hold i hi), List.forall_mem_singleton.2 (Int.le_refl _)⟩
  · rw [hget]
    split_ifs with heq
    · constructor
      · intro hv
        exact ⟨_, List.mem_append_right _ (List.mem_singleton_self _), rfl, heq.symm, Option.some.inj hv⟩
      · rintro ⟨i, hi, -, ht, rfl⟩
        rcases List.mem_append.1 hi with hi | hi
        · have hlt := hold i hi
          rw [ht, heq] at hlt
          exact absurd hlt (Int.lt_irrefl _)
        · rw [List.mem_singleton.1 hi]
    · rw [h.snapshots]
      constructor
      · rintro ⟨i, hi, hrest⟩
        exact ⟨i, List.mem_append_left _ hi, hrest⟩
      · rintro ⟨i, hi, hs, ht, hv⟩
        rcases List.mem_append.1 hi with hi | hi
        · exact ⟨i, hi, hs, ht, hv⟩
        · rw [List.mem_singleton.1 hi] at ht
          exact absurd ht.symm heq

/-- What one call does to the books. -/
theorem apply (h : Booked f is) (call : FeedCall) :
    Booked (call.apply f) (is.map (·.later call) ++ call.issued f []) := by
  obtain ⟨now, rfl⟩ | ⟨hnone, hlast, hget⟩ := call.snapshot_or_quiet f
  · have hsame : Booked f (is.map (·.later (.snapshot now))) := h.retold rfl fun _ => rfl
    exact hsame.issued now
  · rw [hnone, List.append_nil]
    exact h.retold hlast hget

theorem keys_perm (h : Booked f is) : f.snapshots.keys.Perm ((is.filter Issue.standing).map Issue.token) := by
  have hnodup : ((is.filter Issue.standing).map Issue.token).Nodup :=
    h.nodup_tokens.sublist (List.filter_sublist.map _)
  -- neither list has a token twice, so it is enough that they have the same tokens
  refine (List.perm_ext_iff_of_nodup (SortedMap.nodup_keys _) hnodup).2 fun token => ?_
  simp only [SortedMap.mem_keys, h.snapshots, List.mem_map, List.mem_filter]
  constructor
  · rintro ⟨_, i, hi, hs, ht, -⟩
    exact ⟨i, ⟨hi, hs⟩, ht⟩
  · rintro ⟨i, ⟨hi, hs⟩, ht⟩
    exact ⟨_, i, hi, hs, ht, rfl⟩

theorem activeSnapshots_eq (h : Booked f is) : f.activeSnapshots = is.countP Issue.standing := by
  have hlength := h.keys_perm.length_eq
  rw [List.length_map, ← List.countP_eq_length_filter, SortedMap.keys, List.length_map] at hlength
  exact hlength

end Booked

theorem booked (calls : List FeedCall) : Booked (empty.after calls) (empty.issues calls) := by
  induction calls using List.reverseRecOn with
  | nil => exact .empty
  | append_singleton calls call ih =>
    rw [after_concat, issues_concat]
    exact ih.apply call

/-- Tokens exceed the readings of the clock by no more than their number. -/
theorem last_le {bound : Int} (hbound : 0 ≤ bound) {calls : List FeedCall}
    (hclock : ∀ now, .snapshot now ∈ calls → now ≤ bound) :
    (empty.after calls).last ≤ bound + (empty.issues calls).length := by
  induction calls using List.reverseRecOn with
  | nil => simpa [after, issues, empty] using hbound
  | append_singleton calls call ih =>
    have hbefore := ih fun now hnow => hclock now (List.mem_append_left _ hnow)
    rw [after_concat, issues_concat, List.length_append, List.length_map]
    obtain ⟨now, rfl⟩ | ⟨hnone, hlast, -⟩ := call.snapshot_or_quiet (empty.after calls)
    · have hnow := hclock now (List.mem_append_right _ (List.mem_singleton_self _))
      change max now ((empty.after calls).last + 1) ≤ bound + ((empty.issues calls).length + 1 : Nat)
      omega
    · rw [hnone, hlast]
      simpa using hbefore

/-! ### What the calls may rely on -/

/-- The feed does not know the token. -/
def Unknown (f : MemoryFeed) (token : Token) : Prop :=
  (∀ r, source.query f token r = (.error (.snapshotNotFound token), f)) ∧
    source.release f token = (.error (.snapshotNotFound token), f)

theorem unknown_of_get? {f : MemoryFeed} {token : Token} (h : f.snapshots.get? token = none) :
    f.Unknown token := by
  constructor
  · intro r
    simp [source, query, h]
  · simp [source, release, isActive, SortedMap.contains, h]

/-- What holds of a feed, given the calls made to it since it was empty. -/
structure SnapshotsKept (calls : List FeedCall) (f : MemoryFeed) (is : List Issue) : Prop where
  increasing : is.Pairwise fun a b => a.token.value < b.token.value
  positive : ∀ i ∈ is, 1 ≤ i.token.value
  /-- No token is out of the range of the clock by more than the number of snapshots. -/
  in_range : ∀ bound, 0 ≤ bound → (∀ now, .snapshot now ∈ calls → now ≤ bound) →
    ∀ i ∈ is, i.token.value ≤ bound + is.length
  frozen : ∀ i ∈ is, i.standing = true → ∀ r, source.query f i.token r = (.ok (i.values.lookup r), f)
  releasable : ∀ i ∈ is, i.standing = true → (source.release f i.token).1 = .ok ()
  ended : ∀ i ∈ is, i.standing = false → f.Unknown i.token
  unissued : ∀ token, (∀ i ∈ is, i.token ≠ token) → f.Unknown token
  active : f.activeSnapshots = is.countP Issue.standing
  failed_load : ∀ text e, (f.loadJson text).1 = .error e → (f.loadJson text).2 = f

/-- However the calls and the readings of the clock come, tokens are issued in increasing order, and each
answers from its issue to its release, and only then, as the values that were current when it was issued. -/
theorem snapshots_kept (calls : List FeedCall) :
    SnapshotsKept calls (empty.after calls) (empty.issues calls) := by
  have hb := booked calls
  exact
    { increasing := hb.increasing
      positive := hb.positive
      in_range := fun bound hbound hclock i hi => Int.le_trans (hb.le_last i hi) (last_le hbound hclock)
      frozen := by
        intro i hi hs r
        simp [source, query, hb.get?_of_standing hi hs]
      releasable := by
        intro i hi hs
        simp [source, release, isActive, SortedMap.contains, hb.get?_of_standing hi hs]
      ended := by
        intro i hi hs
        refine unknown_of_get? (hb.get?_eq_none fun j hj hjs heq => ?_)
        obtain rfl := List.inj_on_of_nodup_map hb.nodup_tokens hj hi heq
        simp [hs] at hjs
      unissued := fun token hno => unknown_of_get? (hb.get?_eq_none fun i hi _ => hno i hi)
      active := hb.activeSnapshots_eq
      failed_load := by
        intro text e he
        unfold loadJson at he ⊢
        split at he
        · rfl
        · cases he }

/-- The clock may stand still, go back or be before 1970. -/
example : ((empty.issues [.snapshot 5, .snapshot 5, .release ⟨5⟩, .snapshot (-3)]).map (·.token.value)) =
    [5, 6, 7] := by decide

end MemoryFeed

end CalcCycle
