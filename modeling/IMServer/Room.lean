import IMServer.Transition
import Mathlib.Data.List.Nodup
import Mathlib.Logic.Function.Basic

/-! # A chat room — members, requests, inboxes

    What a chat server is for, told without sockets, buffers and threads.  Members
    come and go, take names, and speak to all or to one name; every member has an
    inbox of what it was told.  The two results are about what a member can see:
    of what others say to somebody else nothing at all (`unseen`), and of what is
    said to all the same as everyone else (`inbox_run`). -/

namespace IMRoom

open IMTransition

/-- What is read in the room. -/
inductive Message (ν τ : Type) where
  | said (sender : ν) (text : τ)
  | online (name : ν)
  | offline (name : ν)
  deriving DecidableEq

/-- What a member asks for. -/
inductive Request (ν τ : Type) where
  | login (name : ν)
  | toAll (text : τ)
  | toOne (rcpt : ν) (text : τ)
  | nothing
  deriving DecidableEq

/-- The room: its members in the order they came, their names, whether their
    connection is known to be broken, what they asked for and what they were
    told. -/
structure Room (κ ν τ : Type) where
  members : List κ
  name : κ → ν
  broken : κ → Bool
  asked : κ → List (Request ν τ)
  inbox : κ → List (Message ν τ)

/-- What happens in the room. -/
inductive RoomEvent (κ ν τ : Type) where
  | enter (c : κ)
  | ask (c : κ) (request : Request ν τ)
  | lose (c : κ)
  | leave (c : κ)
  deriving DecidableEq

variable {κ ν τ : Type}

/-- Whom `sender` reaches: the members that are not broken, have a name other than
    `nobody`, and not the sender's. -/
def Room.Hears (r : Room κ ν τ) (nobody sender : ν) (d : κ) : Prop :=
  d ∈ r.members ∧ r.broken d = false ∧ r.name d ≠ nobody ∧ r.name d ≠ sender

instance [DecidableEq κ] [DecidableEq ν] (r : Room κ ν τ) (nobody sender : ν) :
    DecidablePred (r.Hears nobody sender) :=
  fun d => inferInstanceAs (Decidable (d ∈ r.members ∧ _ ∧ _ ∧ _))

/-- A message for those that `dest` says. -/
def Room.tell (r : Room κ ν τ) (dest : κ → Prop) [DecidablePred dest]
    (m : Message ν τ) : Room κ ν τ :=
  { r with inbox := fun d => r.inbox d ++ if dest d then [m] else [] }

section Steps

variable [DecidableEq κ] [DecidableEq ν] (nobody : ν)

/-- What a request of `c` does. -/
def answer (r : Room κ ν τ) (c : κ) : Request ν τ → Room κ ν τ
  | .login name =>
      let r := { r with name := Function.update r.name c name }
      r.tell (r.Hears nobody name) (.online name)
  | .toAll text => r.tell (r.Hears nobody (r.name c)) (.said (r.name c) text)
  | .toOne rcpt text =>
      r.tell (fun d => r.Hears nobody (r.name c) d ∧ r.name d = rcpt)
        (.said (r.name c) text)
  | .nothing => r

def roomStep (r : Room κ ν τ) : RoomEvent κ ν τ → Option (Room κ ν τ)
  | .enter c =>
      if c ∉ r.members then
        some
          { members := r.members ++ [c]
            name := Function.update r.name c nobody
            broken := Function.update r.broken c false
            asked := Function.update r.asked c []
            inbox := Function.update r.inbox c [] }
      else none
  | .ask c request =>
      if c ∈ r.members then
        some (answer nobody { r with
          asked := Function.update r.asked c (r.asked c ++ [request]) } c request)
      else none
  | .lose c =>
      if c ∈ r.members then
        some { r with broken := Function.update r.broken c true }
      else none
  | .leave c =>
      if c ∈ r.members then
        let r := { r with members := r.members.erase c }
        some (r.tell (r.Hears nobody (r.name c)) (.offline (r.name c)))
      else none

/-- The room is empty at the start. -/
def roomSystem : System (Room κ ν τ) (RoomEvent κ ν τ) where
  start r := r.members = []
  step := roomStep nobody

/-! ## What a member can see -/

/-- The request is to one name, and not that of `c`. -/
def Hidden (c : κ) (r : Room κ ν τ) : RoomEvent κ ν τ → Prop
  | .ask _ (.toOne rcpt _) => rcpt ≠ r.name c
  | _ => False

instance (c : κ) (r : Room κ ν τ) : DecidablePred (Hidden c r) := fun e =>
  match e with
  | .ask _ (.toOne rcpt _) => inferInstanceAs (Decidable (rcpt ≠ r.name c))
  | .ask _ (.login _) => .isFalse id
  | .ask _ (.toAll _) => .isFalse id
  | .ask _ .nothing => .isFalse id
  | .enter _ => .isFalse id
  | .lose _ => .isFalse id
  | .leave _ => .isFalse id

/-- The events of a run without those that are hidden from `c`. -/
def seenBy (c : κ) (r : Room κ ν τ) (es : List (RoomEvent κ ν τ)) :
    List (RoomEvent κ ν τ) :=
  imageRun (roomSystem nobody) (fun r e => if Hidden c r e then [] else [e]) r es

end Steps

/-- The two rooms are the same to `c`. -/
structure View (c : κ) (r r' : Room κ ν τ) : Prop where
  members : r'.members = r.members
  name : r'.name = r.name
  broken : r'.broken = r.broken
  inbox : r'.inbox c = r.inbox c

theorem View.refl (c : κ) (r : Room κ ν τ) : View c r r := ⟨rfl, rfl, rfl, rfl⟩

theorem View.symm {c : κ} {r r' : Room κ ν τ} (h : View c r r') : View c r' r :=
  ⟨h.members.symm, h.name.symm, h.broken.symm, h.inbox.symm⟩

theorem View.trans {c : κ} {r r' r'' : Room κ ν τ} (h : View c r r')
    (h' : View c r' r'') : View c r r'' :=
  ⟨h'.members.trans h.members, h'.name.trans h.name, h'.broken.trans h.broken,
    h'.inbox.trans h.inbox⟩

/-- The same message, to those that `dest` and `dest'` say. -/
theorem View.tell {c : κ} {r r' : Room κ ν τ} (h : View c r r')
    {dest dest' : κ → Prop} [DecidablePred dest] [DecidablePred dest']
    (hd : dest' c ↔ dest c) (m : Message ν τ) :
    View c (r.tell dest m) (r'.tell dest' m) := by
  refine ⟨h.members, h.name, h.broken, ?_⟩
  rw [Room.tell, Room.tell]
  dsimp only
  rw [h.inbox]
  by_cases hc : dest c
  · rw [if_pos hc, if_pos (hd.mpr hc)]
  · rw [if_neg hc, if_neg (mt hd.mp hc)]

theorem View.hears {c : κ} {r r' : Room κ ν τ} (h : View c r r') (nobody sender : ν)
    (d : κ) : r'.Hears nobody sender d ↔ r.Hears nobody sender d := by
  rw [Room.Hears, Room.Hears, h.members, h.name, h.broken]

section Views

variable [DecidableEq κ] [DecidableEq ν] {nobody : ν} {c : κ}

/-- Equal requests. -/
theorem View.answer {r r' : Room κ ν τ} (h : View c r r') (d : κ)
    (request : Request ν τ) :
    View c (IMRoom.answer nobody r d request) (IMRoom.answer nobody r' d request) := by
  cases request with
  | login name =>
      have hlogin : View c { r with name := Function.update r.name d name }
          { r' with name := Function.update r'.name d name } :=
        ⟨h.members, by rw [h.name], h.broken, h.inbox⟩
      exact hlogin.tell (hlogin.hears nobody name c) _
  | toAll text =>
      rw [IMRoom.answer, IMRoom.answer, h.name]
      exact h.tell (h.hears nobody (r.name d) c) _
  | toOne rcpt text =>
      have hto : r'.Hears nobody (r.name d) c ∧ r'.name c = rcpt
          ↔ r.Hears nobody (r.name d) c ∧ r.name c = rcpt :=
        and_congr (h.hears nobody (r.name d) c) (by rw [h.name])
      rw [IMRoom.answer, IMRoom.answer, h.name]
      rw [h.name] at hto
      exact h.tell hto _
  | nothing => exact h

/-- The same event in both rooms. -/
theorem View.step {r r' s : Room κ ν τ} (h : View c r r') {e : RoomEvent κ ν τ}
    (hstep : roomStep nobody r e = some s) :
    ∃ s', roomStep nobody r' e = some s' ∧ View c s s' := by
  have hmem : ∀ d, d ∈ r'.members ↔ d ∈ r.members := fun d => by rw [h.members]
  cases e with
  | enter d =>
      obtain ⟨hd, hs⟩ := Option.ite_none_right_eq_some.mp hstep
      obtain rfl := Option.some.inj hs
      refine ⟨_, if_pos (mt (hmem d).mp hd), ?_, ?_, ?_, ?_⟩
      · dsimp only
        rw [h.members]
      · dsimp only
        rw [h.name]
      · dsimp only
        rw [h.broken]
      · dsimp only
        by_cases hcd : c = d
        · rw [hcd, Function.update_self, Function.update_self]
        · rw [Function.update_of_ne hcd, Function.update_of_ne hcd, h.inbox]
  | ask d request =>
      obtain ⟨hd, hs⟩ := Option.ite_none_right_eq_some.mp hstep
      obtain rfl := Option.some.inj hs
      refine ⟨_, if_pos ((hmem d).mpr hd), View.answer ?_ d request⟩
      exact ⟨h.members, h.name, h.broken, h.inbox⟩
  | lose d =>
      obtain ⟨hd, hs⟩ := Option.ite_none_right_eq_some.mp hstep
      obtain rfl := Option.some.inj hs
      refine ⟨_, if_pos ((hmem d).mpr hd), h.members, h.name, ?_, h.inbox⟩
      dsimp only
      rw [h.broken]
  | leave d =>
      obtain ⟨hd, hs⟩ := Option.ite_none_right_eq_some.mp hstep
      obtain rfl := Option.some.inj hs
      have hleft : View c { r with members := r.members.erase d }
          { r' with members := r'.members.erase d } :=
        ⟨by rw [h.members], h.name, h.broken, h.inbox⟩
      refine ⟨_, if_pos ((hmem d).mpr hd), ?_⟩
      dsimp only
      rw [congrFun h.name d]
      exact hleft.tell (hleft.hears nobody (r.name d) c) _

/-- A hidden event changes nothing that `c` sees. -/
theorem view_hidden {r s : Room κ ν τ} {e : RoomEvent κ ν τ} (he : Hidden c r e)
    (hstep : roomStep nobody r e = some s) : View c r s := by
  cases e with
  | enter d => exact he.elim
  | lose d => exact he.elim
  | leave d => exact he.elim
  | ask d request =>
      obtain ⟨-, hs⟩ := Option.ite_none_right_eq_some.mp hstep
      obtain rfl := Option.some.inj hs
      cases request with
      | login name => exact he.elim
      | toAll text => exact he.elim
      | nothing => exact he.elim
      | toOne rcpt text =>
          refine ⟨rfl, rfl, rfl, ?_⟩
          exact (congrArg (r.inbox c ++ ·) (if_neg fun hto => he hto.2.symm)).trans
            (List.append_nil _)

/-- **UNSEEN**: without the events that are hidden from `c` the room looks the same
    to it. -/
theorem seenBy_run (es : List (RoomEvent κ ν τ)) {r s : Room κ ν τ}
    (hrun : runFrom (roomSystem nobody) r es = some s) :
    ∃ s', runFrom (roomSystem nobody) r (seenBy nobody c r es) = some s'
      ∧ View c s s' := by
  refine simulation (roomSystem nobody) (roomSystem nobody)
    (C := fun _ _ => True) (R := View c) ?_ es (.refl c r)
    (along_of_mem _ es r fun _ _ => trivial) hrun
  intro r e s r' h _ hstep
  by_cases he : Hidden c r e
  · rw [if_pos he]
    exact ⟨r', rfl, (view_hidden he hstep).symm.trans h⟩
  · rw [if_neg he]
    obtain ⟨s', hs', hview⟩ := h.step hstep
    exact ⟨s', runFrom_single _ hs', hview⟩

/-- **THE SAME SIGHT**: runs that differ in hidden events only end in rooms that are
    the same to `c`. -/
theorem unseen {es fs : List (RoomEvent κ ν τ)} {r s t : Room κ ν τ}
    (hs : runFrom (roomSystem nobody) r es = some s)
    (ht : runFrom (roomSystem nobody) r fs = some t)
    (hseen : seenBy nobody c r es = seenBy nobody c r fs) : View c s t := by
  obtain ⟨s', hs', hview⟩ := seenBy_run es hs
  obtain ⟨t', ht', hview'⟩ := seenBy_run fs ht
  rw [hseen, ht'] at hs'
  obtain rfl := Option.some.inj hs'
  exact hview.trans hview'.symm

end Views

/-! ## What is said to all -/

/-- The message of an event that is for all. -/
def said (r : Room κ ν τ) : RoomEvent κ ν τ → List (Message ν τ)
  | .ask _ (.login name) => [.online name]
  | .ask c (.toAll text) => [.said (r.name c) text]
  | .leave c => [.offline (r.name c)]
  | _ => []

/-- What `c` can hear: it is logged in and not broken. -/
structure Room.Present (r : Room κ ν τ) (nobody : ν) (c : κ) : Prop where
  member : c ∈ r.members
  broken : r.broken c = false
  name : r.name c ≠ nobody

instance [DecidableEq κ] [DecidableEq ν] (r : Room κ ν τ) (nobody : ν) (c : κ) :
    Decidable (r.Present nobody c) :=
  decidable_of_iff (c ∈ r.members ∧ r.broken c = false ∧ r.name c ≠ nobody)
    ⟨fun ⟨h1, h2, h3⟩ => ⟨h1, h2, h3⟩, fun ⟨h1, h2, h3⟩ => ⟨h1, h2, h3⟩⟩

/-- The event is not about `c`, and not by or for one of its name. -/
def ByOthers (c : κ) (r : Room κ ν τ) : RoomEvent κ ν τ → Prop
  | .ask d (.login name) => d ≠ c ∧ name ≠ r.name c
  | .ask d (.toAll _) => r.name d ≠ r.name c
  | .ask _ (.toOne rcpt _) => rcpt ≠ r.name c
  | .lose d => d ≠ c
  | .leave d => d ≠ c ∧ r.name d ≠ r.name c
  | _ => True

instance [DecidableEq κ] [DecidableEq ν] (c : κ) (r : Room κ ν τ) :
    DecidablePred (ByOthers c r) := fun e =>
  match e with
  | .ask _ (.login _) => inferInstanceAs (Decidable (_ ∧ _))
  | .ask _ (.toAll _) => inferInstanceAs (Decidable (_ ≠ _))
  | .ask _ (.toOne _ _) => inferInstanceAs (Decidable (_ ≠ _))
  | .ask _ .nothing => .isTrue trivial
  | .enter _ => .isTrue trivial
  | .lose _ => inferInstanceAs (Decidable (_ ≠ _))
  | .leave _ => inferInstanceAs (Decidable (_ ∧ _))

theorem Room.Present.hears {r : Room κ ν τ} {nobody : ν} {c : κ}
    (h : r.Present nobody c) {sender : ν} (hs : sender ≠ r.name c) :
    r.Hears nobody sender c :=
  ⟨h.member, h.broken, h.name, hs.symm⟩

section Conversation

variable [DecidableEq κ] [DecidableEq ν] {nobody : ν} {c : κ}

/-- One event. -/
theorem present_step {r s : Room κ ν τ} (h : r.Present nobody c)
    {e : RoomEvent κ ν τ} (he : ByOthers c r e) (hstep : roomStep nobody r e = some s) :
    s.Present nobody c ∧ s.inbox c = r.inbox c ++ said r e := by
  cases e with
  | enter d =>
      obtain ⟨hd, hs⟩ := Option.ite_none_right_eq_some.mp hstep
      obtain rfl := Option.some.inj hs
      have hne : c ≠ d := fun e => hd (e ▸ h.member)
      refine ⟨⟨List.mem_append_left _ h.member, ?_, ?_⟩, ?_⟩
      · exact (Function.update_of_ne hne ..).trans h.broken
      · exact fun e => h.name ((Function.update_of_ne hne ..).symm.trans e)
      · exact (Function.update_of_ne hne ..).trans (List.append_nil _).symm
  | lose d =>
      obtain ⟨hd, hs⟩ := Option.ite_none_right_eq_some.mp hstep
      obtain rfl := Option.some.inj hs
      refine ⟨⟨h.member, ?_, h.name⟩, ?_⟩
      · exact (Function.update_of_ne he.symm ..).trans h.broken
      · exact (List.append_nil _).symm
  | leave d =>
      obtain ⟨hne, hname⟩ := he
      obtain ⟨hd, hs⟩ := Option.ite_none_right_eq_some.mp hstep
      obtain rfl := Option.some.inj hs
      have hleft : Room.Present { r with members := r.members.erase d } nobody c :=
        ⟨(List.mem_erase_of_ne hne.symm).mpr h.member, h.broken, h.name⟩
      refine ⟨⟨hleft.member, hleft.broken, hleft.name⟩, ?_⟩
      exact congrArg (r.inbox c ++ ·) (if_pos (hleft.hears hname))
  | ask d request =>
      obtain ⟨hd, hs⟩ := Option.ite_none_right_eq_some.mp hstep
      obtain rfl := Option.some.inj hs
      cases request with
      | login name =>
          obtain ⟨hne, hname⟩ := he
          have hsame : Function.update r.name d name c = r.name c :=
            Function.update_of_ne hne.symm ..
          have hnamed : Room.Present
              { r with
                asked := Function.update r.asked d (r.asked d ++ [.login name])
                name := Function.update r.name d name } nobody c :=
            ⟨h.member, h.broken, by dsimp only; rw [hsame]; exact h.name⟩
          refine ⟨⟨hnamed.member, hnamed.broken, hnamed.name⟩, ?_⟩
          refine congrArg (r.inbox c ++ ·) (if_pos (hnamed.hears ?_))
          dsimp only
          rw [hsame]
          exact hname
      | toAll text =>
          refine ⟨⟨h.member, h.broken, h.name⟩, ?_⟩
          exact congrArg (r.inbox c ++ ·) (if_pos ⟨h.member, h.broken, h.name, he.symm⟩)
      | toOne rcpt text =>
          refine ⟨⟨h.member, h.broken, h.name⟩, ?_⟩
          exact congrArg (r.inbox c ++ ·) (if_neg fun hto => he hto.2.symm)
      | nothing =>
          exact ⟨⟨h.member, h.broken, h.name⟩, (List.append_nil _).symm⟩

/-- **THE SAME CONVERSATION**: a member that stays is told what is said to all, so
    any two of them are told the same. -/
theorem inbox_run : ∀ (es : List (RoomEvent κ ν τ)) {r s : Room κ ν τ},
    r.Present nobody c → Along (roomSystem nobody) (ByOthers c) r es →
      runFrom (roomSystem nobody) r es = some s →
      s.Present nobody c
        ∧ s.inbox c = r.inbox c ++ imageRun (roomSystem nobody) said r es := by
  intro es
  induction es with
  | nil =>
      intro r s h _ hrun
      obtain rfl := Option.some.inj hrun
      exact ⟨h, (List.append_nil _).symm⟩
  | cons e es ih =>
      intro r s h halong hrun
      obtain ⟨r₁, hstep, hrest⟩ := Option.bind_eq_some_iff.mp hrun
      obtain ⟨h₁, hinbox⟩ := present_step h halong.1 hstep
      obtain ⟨h', hinbox'⟩ := ih h₁ (halong.2 r₁ hstep) hrest
      refine ⟨h', ?_⟩
      rw [hinbox', hinbox, imageRun, hstep, List.append_assoc]

end Conversation

end IMRoom
