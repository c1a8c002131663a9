import PowDB.Lib.Steps
import PowDB.Server.AuthFailureTable
import Mathlib.Order.WithBot
import Mathlib.Data.String.Basic
import Mathlib.Data.Bool.Basic

/-! Handshakes and the limiter. A handshake asks the limiter, verifies the password and reports
the outcome to the limiter, each a step of its own; any number of handshakes, from any peers,
interleave. -/
namespace PowDB.Server
open Lib Function AuthFailureTable
/-- Who a failure is counted against: one name as used by one peer, or the peer as a whole. -/
inductive AuthBucket (π : Type)
  | peerUser (peer : π) (user : Option String)
  | peer (peer : π)

def maxAuthBucketUserBytes : ℕ := 64

/-- The first characters that take at most `room` bytes. -/
def cutBytes : ℕ → List Char → List Char
  | _, [] => []
  | room, c::cs => if c.utf8Size ≤ room then c::cutBytes (room-c.utf8Size) cs else []

def bucketUserKey (user : String) : String := String.ofList (cutBytes maxAuthBucketUserBytes user.toList)

/-- What a handshake brings: the peer, the name on the frame and whether its snapshot of the user
store is empty. -/
structure Connect (π : Type) where
  peer : π
  username : Option String
  usersEmpty : Bool

/-- The name the limiter counts against; none where no name decides. -/
def Connect.limiterUser {π : Type} (c : Connect π) : Option String := if c.usersEmpty then none else c.username

def pairBucket {π : Type} (peer : π) (user : Option String) : AuthBucket π := .peerUser peer (user.map bucketUserKey)

/-- The order of the keys: the variants in the order they are declared, then the fields. -/
def AuthBucket.ordered {π : Type} : AuthBucket π → Bool ×ₗ π ×ₗ WithBot String
  | .peerUser p u => toLex (false,toLex (p,u))
  | .peer p => toLex (true,toLex (p,none))

lemma AuthBucket.ordered_injective {π : Type} : Function.Injective (AuthBucket.ordered (π := π)) := by
  rintro (⟨p,u⟩ | p) (⟨p',u'⟩ | p') h
  · obtain ⟨rfl,rfl⟩ := Prod.mk.inj (Prod.mk.inj h).2
    rfl
  · exact nomatch (Prod.mk.inj h).1
  · exact nomatch (Prod.mk.inj h).1
  · obtain ⟨rfl,-⟩ := Prod.mk.inj (Prod.mk.inj h).2
    rfl

instance {π : Type} [LinearOrder π] : LinearOrder (AuthBucket π) :=
  LinearOrder.lift' AuthBucket.ordered AuthBucket.ordered_injective

inductive HandshakePhase
  | connecting
  /-- let through by the limiter, the password not yet verified -/
  | verifying
  /-- refused, the failure not yet recorded -/
  | rejected
  /-- accepted, the failures not yet cleared -/
  | authenticated
  | closed
  deriving DecidableEq

/-- A handshake that may still end in a failure the limiter does not know of. -/
def HandshakePhase.inFlight : HandshakePhase → Bool
  | .verifying | .rejected => true
  | _ => false

inductive HandshakeAction (ι : Type)
  | check (i : ι)
  | verify (i : ι) (accepted : Bool)
  | record (i : ι)
  | clear (i : ι)
  | tick (nanos : ℕ)

/-- The server's limiter and its handshakes. The log has, for each pair of peer and user, the
outcomes reported so far with their times, the latest first; `true` is a failure. -/
structure Throttle (π ι : Type) where
  table : AuthFailureTable (AuthBucket π)
  clock : ℕ
  phase : ι → HandshakePhase
  log : π × Option String → List (ℕ × Bool)

section steps
variable {π ι : Type} [LinearOrder π] [DecidableEq ι] (conn : ι → Connect π)

def who (i : ι) : π × Option String := ((conn i).peer,(conn i).limiterUser)

def bucketOf (who : π × Option String) : AuthBucket π := pairBucket who.1 who.2

/-- `is_rate_limited` on the table after its sweep. -/
def rateLimited (t : AuthFailureTable (AuthBucket π)) (who : π × Option String) (now : ℕ) : Bool :=
  decide (maxAuthFailures ≤ t.count (bucketOf who) now) || decide (maxPeerAuthFailures ≤ t.count (.peer who.1) now)

def recordAuthFailure (t : AuthFailureTable (AuthBucket π)) (who : π × Option String) (now : ℕ) :
    AuthFailureTable (AuthBucket π) :=
  ((t.sweepIfDue now).record (bucketOf who) now).record (.peer who.1) now

def clearAuthFailures (t : AuthFailureTable (AuthBucket π)) (who : π × Option String) : AuthFailureTable (AuthBucket π) :=
  (t.forget (bucketOf who)).forget (.peer who.1)

def Throttle.goto (s : Throttle π ι) (i : ι) (p : HandshakePhase) : Throttle π ι :=
  { s with phase := Function.update s.phase i p }

def Throttle.report (s : Throttle π ι) (i : ι) (failed : Bool) (t : AuthFailureTable (AuthBucket π)) : Throttle π ι :=
  { s.goto i .closed with
    table := t, log := Function.update s.log (who conn i) ((s.clock,failed)::s.log (who conn i)) }

/-- Each action belongs to one phase of its handshake. -/
def Throttle.enabled (s : Throttle π ι) : HandshakeAction ι → Bool
  | .check i => s.phase i = .connecting
  | .verify i _ => s.phase i = .verifying
  | .record i => s.phase i = .rejected
  | .clear i => s.phase i = .authenticated
  | .tick _ => true

def Throttle.after (s : Throttle π ι) : HandshakeAction ι → Throttle π ι
  | .check i =>
    { s.goto i (if rateLimited (s.table.sweepIfDue s.clock) (who conn i) s.clock then .closed else .verifying) with
      table := s.table.sweepIfDue s.clock }
  | .verify i accepted => s.goto i (if accepted then .authenticated else .rejected)
  | .record i => s.report conn i true (recordAuthFailure s.table (who conn i) s.clock)
  | .clear i => s.report conn i false (clearAuthFailures s.table (who conn i))
  | .tick n => { s with clock := s.clock+n }

def Throttle.step (s : Throttle π ι) (a : HandshakeAction ι) : Option (Throttle π ι) :=
  if s.enabled a then some (s.after conn a) else none

/-- The failure window the outcomes of a pair leave open: it starts with a failure outside any
earlier window and takes the failures of the following minute, up to a success. -/
def windowOf : List (ℕ × Bool) → Option FailureWindow
  | [] => none
  | (_,false)::_ => none
  | (now,true)::log => some (nextWindow (windowOf log) now)

variable [Fintype ι]

/-- The failed verifications of a pair in its open window, those not yet reported included. -/
def Throttle.failures (s : Throttle π ι) (pair : π × Option String) : ℕ :=
  openCount (windowOf (s.log pair)) s.clock+
    (Finset.univ.filter fun i => who conn i = pair ∧ s.phase i = .rejected).card

def Throttle.inFlight (s : Throttle π ι) (pair : π × Option String) : ℕ :=
  (Finset.univ.filter fun i => who conn i = pair ∧ (s.phase i).inFlight = true).card

/-- The limiter would still let the handshake through if it counted those in flight; no other
name falls into the bucket of the pair; and no failure pushes the pair's bucket out of a full
table. -/
def Orderly (pair : π × Option String) (s : Throttle π ι) : HandshakeAction ι → Prop
  | .check i =>
    let t := s.table.sweepIfDue s.clock
    bucketOf (who conn i) = bucketOf pair → who conn i = pair ∧
      (rateLimited t pair s.clock = false → t.count (bucketOf pair) s.clock+s.inFlight conn pair < maxAuthFailures)
  | .record i =>
    let t := s.table.sweepIfDue s.clock
    let t' := t.record (bucketOf (who conn i)) s.clock
    (t.buckets.lookup (bucketOf (who conn i)) = none → ¬t.Displaces (bucketOf pair) s.clock) ∧
    (t'.buckets.lookup (.peer (who conn i).1) = none → ¬t'.Displaces (bucketOf pair) s.clock)
  | _ => True

/-- A server that has just started. -/
def Throttle.start (now : ℕ) : Throttle π ι where
  table := ⟨[],now,List.nodup_nil⟩
  clock := now
  phase := fun _ => .connecting
  log := fun _ => []

end steps

lemma openCount_nextWindow (w : Option FailureWindow) (now : ℕ) :
    openCount (some (nextWindow w now)) now = openCount w now+1 := by
  have hpos : 0 < authFailureWindow := by decide
  cases w with
  | none => simp [openCount,nextWindow,hpos]
  | some w =>
    by_cases hold : authFailureWindow ≤ now-w.started
    · simp [openCount,nextWindow,hold,hpos]
    · simp [openCount,nextWindow,hold,Nat.lt_of_not_le hold]

lemma openCount_later (w : Option FailureWindow) (h : now ≤ now') :
    openCount w now' ≤ openCount w now := by
  cases w with
  | none => exact le_rfl
  | some w =>
    simp only [openCount]
    split_ifs <;> omega

lemma nextWindow_count_le (h : openCount w now < n) :
    (nextWindow w now).count ≤ n := by
  cases w with
  | none => exact Nat.lt_of_le_of_lt (Nat.zero_le _) h
  | some w =>
    by_cases hold : authFailureWindow ≤ now-w.started
    · simp only [nextWindow,hold,if_true]
      omega
    · simp only [nextWindow,openCount,hold,if_false,Nat.lt_of_not_le hold,if_true] at h ⊢
      omega

section invariant
variable {π ι : Type} [LinearOrder π] [DecidableEq ι] {conn : ι → Connect π} {s : Throttle π ι}
  {pair : π × Option String}
  {i : ι}

open Throttle

lemma step_eq_some : s.step conn a = some s' ↔ s.enabled a = true ∧ s.after conn a = s' := by
  unfold step
  split_ifs with h <;> simp [h]

/-- The table stays within its bound. -/
lemma length_after (h : s.table.buckets.length ≤ maxAuthBuckets) :
    (s.after conn a).table.buckets.length ≤ maxAuthBuckets := by
  cases a with
  | check i => exact length_sweepIfDue h _
  | verify | tick => exact h
  | record i =>
    exact length_record (length_record (length_sweepIfDue h _) _ _) _ _
  | clear i => exact ((length_retain_le _ _).trans (length_retain_le _ _)).trans h

variable [Fintype ι]

/-- A handshake of the pair that comes or goes. -/
lemma inFlight_goto (conn : ι → Connect π) (s : Throttle π ι) (i : ι) (p : HandshakePhase)
    (pair : π × Option String) :
    (s.goto i p).inFlight conn pair+(if who conn i = pair ∧ (s.phase i).inFlight = true then 1 else 0) =
      s.inFlight conn pair+(if who conn i = pair ∧ p.inFlight = true then 1 else 0) := by
  have := card_filter_change (fun j => who conn j = pair ∧ (s.phase j).inFlight = true)
    (fun j => who conn j = pair ∧ ((s.goto i p).phase j).inFlight = true) i fun j hj => by
      simp only [goto,update_of_ne hj]
  simpa only [inFlight,goto,update_self] using this

/-- The bucket follows the window of the pair, and there is room for the failures in flight. -/
structure ThrottleInv (conn : ι → Connect π) (pair : π × Option String) (s : Throttle π ι) : Prop where
  tracks : s.table.Tracks (bucketOf pair) s.clock (windowOf (s.log pair))
  small : ∀ w, windowOf (s.log pair) = some w → w.count ≤ maxAuthFailures
  room : openCount (windowOf (s.log pair)) s.clock+s.inFlight conn pair ≤ maxAuthFailures
  names : ∀ i, s.phase i = .connecting ∨ s.phase i = .closed ∨ bucketOf (who conn i) ≠ bucketOf pair ∨ who conn i = pair

lemma ThrottleInv.names_goto (h : ThrottleInv conn pair s)
    (hi : p = .closed ∨ bucketOf (who conn i) ≠ bucketOf pair ∨ who conn i = pair) (j : ι) :
    (s.goto i p).phase j = .connecting ∨ (s.goto i p).phase j = .closed ∨
      bucketOf (who conn j) ≠ bucketOf pair ∨ who conn j = pair := by
  by_cases hj : j = i
  · subst hj
    simp only [goto,update_self]
    exact .inr hi
  · simp only [goto,update_of_ne hj]
    exact h.names j

omit [DecidableEq ι] in
/-- A handshake under way is either of the pair or of another bucket. -/
lemma ThrottleInv.own_or_other (h : ThrottleInv conn pair s) (hc : s.phase i ≠ .connecting)
    (hd : s.phase i ≠ .closed) : bucketOf (who conn i) ≠ bucketOf pair ∨ who conn i = pair := by
  rcases h.names i with hi | hi | hi
  · exact absurd hi hc
  · exact absurd hi hd
  · exact hi

lemma ThrottleInv.check (h : ThrottleInv conn pair s) (hok : Orderly conn pair s (.check i)) :
    ThrottleInv conn pair (s.after conn (.check i)) := by
  have hown : bucketOf (who conn i) ≠ bucketOf pair ∨ who conn i = pair := by
    by_cases hb : bucketOf (who conn i) = bucketOf pair
    · exact .inr (hok hb).1
    · exact .inl hb
  have htracks := h.tracks.sweepIfDue
  refine ⟨htracks,h.small,?_,h.names_goto (.inr hown)⟩
  show openCount (windowOf (s.log pair)) s.clock+(s.goto i _).inFlight conn pair ≤ _
  have hchange := inFlight_goto conn s i
    (if rateLimited (s.table.sweepIfDue s.clock) (who conn i) s.clock then .closed else .verifying) pair
  have hroom := h.room
  cases hlimited : rateLimited (s.table.sweepIfDue s.clock) (who conn i) s.clock with
  | true =>
    simp only [hlimited,if_true,HandshakePhase.inFlight,Bool.false_eq_true,and_false,if_false] at hchange ⊢
    omega
  | false =>
    by_cases hpair : who conn i = pair
    · subst hpair
      have hfew := (hok rfl).2 hlimited
      rw [htracks.count_eq] at hfew
      simp only [hlimited,HandshakePhase.inFlight,Bool.false_eq_true,if_false,and_self,if_true] at hchange ⊢
      omega
    · simp only [hlimited,hpair,false_and,Bool.false_eq_true] at hchange ⊢
      omega

lemma ThrottleInv.verify (h : ThrottleInv conn pair s) (accepted : Bool) (hi : s.phase i = .verifying) :
    ThrottleInv conn pair (s.after conn (.verify i accepted)) := by
  have hown := h.own_or_other (i := i) (by simp [hi]) (by simp [hi])
  refine ⟨h.tracks,h.small,?_,h.names_goto (.inr hown)⟩
  show openCount (windowOf (s.log pair)) s.clock+(s.goto i _).inFlight conn pair ≤ _
  have hchange := inFlight_goto conn s i (if accepted then .authenticated else .rejected) pair
  have hroom := h.room
  simp only [hi] at hchange
  by_cases hpair : who conn i = pair
  · cases accepted <;>
    · simp only [HandshakePhase.inFlight,if_true,if_false,Bool.false_eq_true,and_false] at hchange ⊢
      omega
  · simp only [hpair,false_and] at hchange ⊢
    omega

/-- Another pair's report, one that spares the bucket. -/
lemma ThrottleInv.report_other (h : ThrottleInv conn pair s)
    (hpair : who conn i ≠ pair) (ht : t.Tracks (bucketOf pair) s.clock (windowOf (s.log pair))) :
    ThrottleInv conn pair (s.report conn i failed t) := by
  have hlog : (s.report conn i failed t).log pair = s.log pair := update_of_ne (Ne.symm hpair) _ _
  have hchange := inFlight_goto conn s i .closed pair
  refine ⟨?_,?_,?_,h.names_goto (.inl rfl)⟩
  · rw [hlog]
    exact ht
  · rw [hlog]
    exact h.small
  · rw [hlog]
    have hroom := h.room
    simp only [hpair,false_and] at hchange
    show _+(s.goto i .closed).inFlight conn pair ≤ _
    rw [show (s.goto i .closed).inFlight conn pair = s.inFlight conn pair by omega]
    exact hroom

lemma ThrottleInv.record (h : ThrottleInv conn pair s) (hok : Orderly conn pair s (.record i))
    (hi : s.phase i = .rejected) : ThrottleInv conn pair (s.after conn (.record i)) := by
  have hswept := h.tracks.sweepIfDue
  by_cases hpair : who conn i = pair
  · have hlog : (s.after conn (.record i)).log pair = (s.clock,true)::s.log pair := by
      simp [Throttle.after,Throttle.report,hpair]
    have hchange := inFlight_goto conn s i .closed pair
    have hroom := h.room
    simp only [hpair,hi,HandshakePhase.inFlight,and_self,if_true,Bool.false_eq_true,and_false,if_false] at hchange
    have hopen : openCount (windowOf (s.log pair)) s.clock < maxAuthFailures := by omega
    refine ⟨?_,?_,?_,h.names_goto (.inl rfl)⟩
    · rw [hlog]
      have hself := hswept.record_self fun w hw => Nat.lt_of_le_of_lt (h.small w hw) (by decide)
      rw [← hpair] at hself ⊢
      exact hself.record_of_ne nofun (hpair ▸ hok.2)
    · rintro w hw
      rw [hlog] at hw
      cases hw
      exact nextWindow_count_le hopen
    · rw [hlog]
      show openCount (some (nextWindow (windowOf (s.log pair)) s.clock)) s.clock+(s.goto i .closed).inFlight conn pair ≤ _
      rw [openCount_nextWindow]
      omega
  · have hne := (h.own_or_other (i := i) (by simp [hi]) (by simp [hi])).resolve_right hpair
    exact h.report_other hpair ((hswept.record_of_ne hne.symm hok.1).record_of_ne nofun hok.2)

lemma ThrottleInv.clear (h : ThrottleInv conn pair s) (hi : s.phase i = .authenticated) :
    ThrottleInv conn pair (s.after conn (.clear i)) := by
  by_cases hpair : who conn i = pair
  · have hlog : (s.after conn (.clear i)).log pair = (s.clock,false)::s.log pair := by
      simp [after,report,hpair]
    have hchange := inFlight_goto conn s i .closed pair
    have hroom := h.room
    simp only [HandshakePhase.inFlight,Bool.false_eq_true,and_false,if_false] at hchange
    refine ⟨?_,?_,?_,h.names_goto (.inl rfl)⟩
    · rw [hlog]
      have hself := tracks_forget_self s.table (bucketOf pair) s.clock
      rw [← hpair] at hself ⊢
      exact hself.forget nofun
    · rintro w hw
      rw [hlog] at hw
      cases hw
    · rw [hlog]
      show 0+(s.goto i .closed).inFlight conn pair ≤ _
      omega
  · have hne := (h.own_or_other (i := i) (by simp [hi]) (by simp [hi])).resolve_right hpair
    exact h.report_other hpair ((h.tracks.forget hne.symm).forget nofun)

/-- What one step keeps. -/
lemma ThrottleInv.step (h : ThrottleInv conn pair s) (hok : Orderly conn pair s a) (hs' : s.step conn a = some s') :
    ThrottleInv conn pair s' := by
  obtain ⟨henabled,rfl⟩ := step_eq_some.mp hs'
  cases a with
  | check i => exact h.check hok
  | verify i accepted => exact h.verify accepted (by simpa [enabled] using henabled)
  | record i => exact h.record hok (by simpa [enabled] using henabled)
  | clear i => exact h.clear (by simpa [enabled] using henabled)
  | tick n =>
    have hroom := h.room
    have hlater := openCount_later (windowOf (s.log pair)) (Nat.le_add_right s.clock n)
    exact ⟨h.tracks.later (Nat.le_add_right _ _),h.small,Nat.le_trans (Nat.add_le_add_right hlater _) hroom,h.names⟩

omit [DecidableEq ι] in
lemma ThrottleInv.start (now : ℕ) : ThrottleInv conn pair (start now) where
  tracks := rfl
  small := nofun
  room := by simp [windowOf,openCount,Throttle.inFlight,Throttle.start,HandshakePhase.inFlight]
  names _ := .inl rfl

omit [DecidableEq ι] in
lemma ThrottleInv.failures_le (h : ThrottleInv conn pair s) : s.failures conn pair ≤ maxAuthFailures := by
  refine Nat.le_trans (Nat.add_le_add_left (Finset.card_le_card ?_) _) h.room
  intro i hi
  simp only [Finset.mem_filter] at hi ⊢
  exact ⟨hi.1,hi.2.1,by simp [hi.2.2,HandshakePhase.inFlight]⟩

end invariant

/-- Six handshakes of one peer naming one user. -/
def sameUser (_ : Fin 6) : Connect ℕ := ⟨7,some "ann",false⟩

def oneAttempt (i : Fin 6) : List (HandshakeAction (Fin 6)) := [.check i,.verify i false,.record i]

lemma not_displaces_of_short {κ : Type} [LinearOrder κ] {t : AuthFailureTable κ}
    (h : t.buckets.length < maxAuthBuckets) (key : κ) (now : ℕ) : ¬t.Displaces key now :=
  fun hd => absurd hd.1 (Nat.not_le_of_lt (Nat.lt_of_le_of_lt (t.length_retain_le _) h))

def allSix (f : Fin 6 → HandshakeAction (Fin 6)) : List (HandshakeAction (Fin 6)) := (List.finRange 6).map f

end PowDB.Server
