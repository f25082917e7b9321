import Mathlib.Algebra.Group.Nat.Defs
import SimplyProxy.Example.Users

/-!
# What the user store answers

The abstract model of the store is its history: a user is there from the answer of its
creation until its deletion, as it was created.

1. `ids_distinct`: no two users get the same id, as long as the counter does not come around.
   Every user is there, as long as none was removed.
2. `answers_exact`: lookups and deletions answer by the history. An update answers with an
   amended copy, and that is all it does.
3. `listed_exact`: a listing that runs beside other calls has every user that was there all the
   time, no user twice and none that was not there at some moment of the call.

The invariants are `Numbered`, of the ids, and `Copied`, of the calls that have read. A listing
has read each shard at a moment of its own (`Collected`).
-/

namespace SimplyProxy
namespace ExampleServer
open Runs

variable {shards : Shards} {argon2 : Argon2} {s s' : State} {e : Event}
  {events before after : List Event}

/-! ## The history -/

/-- The user that a `create_user` has returned. -/
def createdUser (e : Event) : Option User :=
  match e.answer with
  | .created (.ok user) => some user
  | _ => none

def createdIds (events : List Event) : List UInt64 := (events.filterMap createdUser).map User.id

/-- How many calls of `create_user` have taken an id. -/
def creations (events : List Event) : Nat :=
  events.countP fun e => match e.action with
    | .create _ _ => true
    | _ => false

/-- The user was created under the id and has not been deleted since. -/
def Stored (events : List Event) (id : UInt64) (user : User) : Prop :=
  user.id = id ∧ ∃ before e after, events = before ++ e :: after ∧ createdUser e = some user ∧
    ∀ later ∈ after, later.action ≠ .delete id

/-- What one event does to the history of an id. -/
theorem stored_snoc {id : UInt64} {user : User} : Stored (events ++ [e]) id user ↔
    (user.id = id ∧ createdUser e = some user) ∨
      (Stored events id user ∧ e.action ≠ .delete id) := by
  constructor
  · rintro ⟨own, before, e', after, split, made, kept⟩
    rcases after.eq_nil_or_concat with rfl | ⟨after, last, rfl⟩
    · obtain ⟨-, equal⟩ := List.append_inj' split rfl
      obtain rfl := List.singleton_inj.mp equal
      exact .inl ⟨own, made⟩
    · rw [List.concat_eq_append, ← List.cons_append, ← List.append_assoc] at split
      obtain ⟨rfl, equal⟩ := List.append_inj' split rfl
      obtain rfl := List.singleton_inj.mp equal
      rw [List.concat_eq_append] at kept
      exact .inr ⟨⟨own, before, e', after, rfl, made,
        fun later mem => kept later (List.mem_append_left _ mem)⟩, kept e (by simp)⟩
  · rintro (⟨own, made⟩ | ⟨⟨own, before, e', after, rfl, made, kept⟩, stays⟩)
    · exact ⟨own, events, e, [], rfl, made, by simp⟩
    · refine ⟨own, before, e', after ++ [e], by simp, made, fun later mem => ?_⟩
      rcases List.mem_append.mp mem with mem | mem
      · exact kept later mem
      · rwa [List.mem_singleton.mp mem]

theorem Stored.created {id : UInt64} {user : User} (h : Stored events id user) :
    user ∈ events.filterMap createdUser := by
  obtain ⟨-, before, e, after, rfl, made, -⟩ := h
  exact List.mem_filterMap.mpr ⟨e, by simp, made⟩

theorem createdIds_snoc (events : List Event) (e : Event) :
    createdIds (events ++ [e]) = createdIds events ++ ((createdUser e).map User.id).toList := by
  unfold createdIds
  rw [List.filterMap_append, List.map_append]
  cases made : createdUser e <;> simp [made]

theorem id_mem_createdIds {user : User} (h : user ∈ events.filterMap createdUser)
    (rest : List Event) : user.id ∈ createdIds (events ++ rest) := by
  unfold createdIds
  rw [List.filterMap_append, List.map_append]
  exact List.mem_append_left _ (List.mem_map_of_mem h)

/-! ## The ids -/

/-- One of the first `n` ids that the counter gives out. -/
def Issued (n : Nat) (id : UInt64) : Prop := ∃ k < n, id = UInt64.ofNat (k + 1)

theorem Issued.mono {n n' : Nat} {id : UInt64} (h : Issued n id) (le : n ≤ n') : Issued n' id := by
  obtain ⟨k, lt, equal⟩ := h
  exact ⟨k, Nat.lt_of_lt_of_le lt le, equal⟩

/-- Before the counter comes around, the next id is new. -/
theorem not_issued_next {n : Nat} (few : n < 2 ^ 64) : ¬Issued n (UInt64.ofNat (n + 1)) := by
  rintro ⟨k, lt, equal⟩
  have same := congrArg UInt64.toNat equal
  simp only [UInt64.toNat_ofNat'] at same
  omega

/-- The counter, the ids that are still pending and those of the users that were created. -/
structure Numbered (events : List Event) (s : State) : Prop where
  next : s.app.nextUserId = UInt64.ofNat (creations events + 1)
  pending : ∀ t id input, s.pending t = some (.create id input) →
    Issued (creations events) id ∧ id ∉ createdIds events ∧
      ∀ t' input', s.pending t' = some (.create id input') → t' = t
  created : ∀ id ∈ createdIds events, Issued (creations events) id
  distinct : (createdIds events).Nodup

theorem numbered_start : Numbered [] start :=
  ⟨rfl, nofun, nofun, .nil⟩

/-- A step that makes no user and takes no id. -/
theorem Numbered.quiet (h : Numbered events s) (none : createdUser e = none)
    (uncounted : creations (events ++ [e]) = creations events)
    (counter : s'.app.nextUserId = s.app.nextUserId)
    (pending : ∀ t id input, s'.pending t = some (.create id input) →
      s.pending t = some (.create id input)) : Numbered (events ++ [e]) s' := by
  have same : createdIds (events ++ [e]) = createdIds events := by
    rw [createdIds_snoc, none]
    simp
  refine ⟨?_, fun t id input held => ?_, ?_, ?_⟩
  · rw [counter, uncounted, h.next]
  · obtain ⟨issued, unused, alone⟩ := h.pending t id input (pending t id input held)
    rw [uncounted, same]
    exact ⟨issued, unused, fun t' input' held' => alone t' input' (pending t' id input' held')⟩
  · rw [same, uncounted]
    exact h.created
  · rw [same]
    exact h.distinct

/-- A call that is no `create_user` takes the place of another one, or of none. -/
theorem pending_create_put {thread : Nat} {call : Option Pending}
    (other : ∀ id input, call ≠ some (.create id input)) {t : Nat} {id : UInt64}
    {input : CreateUser} (held : (s.put thread call).pending t = some (.create id input)) :
    s.pending t = some (.create id input) ∧ t ≠ thread := by
  rw [State.pending_put] at held
  split at held
  · exact absurd held (other id input)
  · next apart => exact ⟨held, apart⟩

theorem Numbered.put (h : Numbered events s) (none : createdUser e = none)
    (uncounted : creations (events ++ [e]) = creations events) {thread : Nat}
    {call : Option Pending} (other : ∀ id input, call ≠ some (.create id input)) :
    Numbered (events ++ [e]) (s.put thread call) :=
  h.quiet none uncounted rfl fun _ _ _ held => (pending_create_put other held).1

theorem creations_create (events : List Event) (thread : Nat) (input : CreateUser) :
    creations (events ++ [⟨.create thread input, .pending⟩]) = creations events + 1 := by
  simp [creations]

/-- `create_user` takes an id that nobody has. -/
theorem Numbered.create (h : Numbered events s) {thread : Nat} {input : CreateUser}
    (few : creations events < 2 ^ 64) : Numbered (events ++ [⟨.create thread input, .pending⟩])
      ({ s with app := s.app.fetchId.2 }.put thread (some (.create s.app.fetchId.1 input))) := by
  have counted := creations_create events thread input
  have same : createdIds (events ++ [⟨.create thread input, .pending⟩]) = createdIds events := by
    rw [createdIds_snoc]
    simp [createdUser]
  have new : s.app.fetchId.1 = UInt64.ofNat (creations events + 1) := h.next
  have fresh : ¬Issued (creations events) s.app.fetchId.1 := by
    rw [new]
    exact not_issued_next few
  refine ⟨?_, fun t id input' held => ?_, fun id mem => ?_, ?_⟩
  · rw [counted]
    show s.app.nextUserId + 1 = _
    rw [h.next]
    simp
  · rw [counted, same]
    rw [State.pending_put] at held
    split at held
    · next own =>
      cases held
      refine ⟨⟨creations events, Nat.lt_succ_self _, new⟩, fun mem => fresh (h.created _ mem), ?_⟩
      intro t' input'' held'
      rw [State.pending_put] at held'
      split at held'
      · next own' => exact own'.trans own.symm
      · exact absurd (h.pending t' _ _ held').1 fresh
    · obtain ⟨issued, unused, alone⟩ := h.pending t id input' held
      refine ⟨issued.mono (Nat.le_succ _), unused, fun t' input'' held' => ?_⟩
      rw [State.pending_put] at held'
      split at held'
      · cases held'
        exact absurd issued fresh
      · exact alone t' input'' held'
  · rw [same] at mem
    rw [counted]
    exact (h.created id mem).mono (Nat.le_succ _)
  · rw [same]
    exact h.distinct

/-- The id of an inserted user was pending, and nowhere else. -/
theorem Numbered.insert (h : Numbered events s) {thread : Nat} {salt : String}
    {createdAt updatedAt : DateTime} {user : User} {input : CreateUser}
    (held : s.pending thread = some (.create user.id input)) :
    Numbered (events ++ [⟨.insert thread salt createdAt updatedAt, .created (.ok user)⟩])
      ({ s with app := s.app.insert user }.put thread none) := by
  obtain ⟨issued, unused, alone⟩ := h.pending thread user.id input held
  have uncounted : creations (events ++
      [⟨.insert thread salt createdAt updatedAt, .created (.ok user)⟩]) = creations events := by
    simp [creations]
  have more : createdIds (events ++
      [⟨.insert thread salt createdAt updatedAt, .created (.ok user)⟩]) =
        createdIds events ++ [user.id] :=
    createdIds_snoc _ _
  refine ⟨?_, fun t id input' held' => ?_, fun id mem => ?_, ?_⟩
  · rw [uncounted]
    exact h.next
  · obtain ⟨held', apart⟩ := pending_create_put (by simp) held'
    obtain ⟨issued', unused', alone'⟩ := h.pending t id input' held'
    rw [uncounted, more, List.mem_append, List.mem_singleton]
    refine ⟨issued', ?_, fun t' input'' held'' => ?_⟩
    · rintro (mem | rfl)
      · exact unused' mem
      · exact apart (alone t input' held')
    · exact alone' t' input'' (pending_create_put (by simp) held'').1
  · rw [uncounted]
    rw [more, List.mem_append, List.mem_singleton] at mem
    rcases mem with mem | rfl
    · exact h.created id mem
    · exact issued
  · rw [more]
    refine h.distinct.append (List.nodup_singleton user.id) ?_
    simpa using unused

theorem Numbered.step (h : Numbered events s) (hstep : Step shards argon2 s e s')
    (few : creations (events ++ [e]) ≤ 2 ^ 64) : Numbered (events ++ [e]) s' := by
  cases hstep.moves with
  | create idle =>
    rw [creations_create] at few
    exact h.create (Nat.lt_of_succ_le few)
  | insert held made =>
    obtain rfl := AppState.newUser_id made
    exact h.insert held
  | unhashed held failed => exact h.put rfl (by simp [creations]) (by simp)
  | get id => exact h.quiet rfl (by simp [creations]) rfl fun _ _ _ held => held
  | missed idle absent => exact h.quiet rfl (by simp [creations]) rfl fun _ _ _ held => held
  | copy idle found => exact h.put rfl (by simp [creations]) (by simp)
  | amend held => exact h.put rfl (by simp [creations]) (by simp)
  | delete id => exact h.quiet rfl (by simp [creations]) rfl fun _ _ _ held => held
  | list idle => exact h.put rfl (by simp [creations]) (by simp)
  | visit held all => exact h.put rfl (by simp [creations]) (by simp)
  | collect held done => exact h.put rfl (by simp [creations]) (by simp)

/-! ## The entries -/

/-- An event that neither creates a user nor deletes one. -/
theorem stored_quiet (none : createdUser e = none) (kept : ∀ id, e.action ≠ .delete id)
    {id : UInt64} {user : User} : Stored (events ++ [e]) id user ↔ Stored events id user := by
  rw [stored_snoc, none]
  simp [kept id]

/-- The entries are the users that are stored, whose ids differ. -/
structure Keeps (events : List Event) (s : State) : Prop extends Numbered events s where
  entries : ∀ id user, s.app.getUserById id = some user ↔ Stored events id user

theorem Keeps.step (h : Keeps events s) (hstep : Step shards argon2 s e s')
    (few : creations (events ++ [e]) ≤ 2 ^ 64) : Keeps (events ++ [e]) s' := by
  refine ⟨h.toNumbered.step hstep few, fun id user => ?_⟩
  cases hstep.moves with
  | @insert thread salt createdAt updatedAt id' input' made held new =>
    obtain ⟨-, unused, -⟩ := h.pending thread id' input' held
    have own : made.id = id' := AppState.newUser_id new
    rw [stored_snoc, ← h.entries]
    show KeyMap.get (s.app.users.insert made.id made) id = some user ↔ _
    rw [KeyMap.get_insert, own]
    split
    · next same =>
      -- nobody else has the id
      have absent : s.app.getUserById id ≠ some user := fun found => by
        have stored := (h.entries id user).mp found
        refine unused (List.mem_map.mpr ⟨user, stored.created, ?_⟩)
        rw [stored.1, same]
      simp only [createdUser, Option.some.injEq, absent, false_and, or_false]
      exact ⟨fun equal => ⟨by rw [← equal, own, same], equal⟩, fun both => both.2⟩
    · next other =>
      have apart : ¬(user.id = id ∧ made = user) := by
        rintro ⟨same, rfl⟩
        exact other (same.symm.trans own)
      simp [createdUser, apart, AppState.getUserById]
  | delete id' =>
    rw [stored_snoc, ← h.entries]
    show KeyMap.get (s.app.users.erase id') id = some user ↔ _
    rw [KeyMap.get_erase]
    split
    · next same => simp [createdUser, same]
    · next other =>
      simp [createdUser, Ne.symm other, AppState.getUserById]
  | _ =>
    rw [stored_quiet rfl (by simp)]
    exact h.entries id user

theorem creations_append_le (before after : List Event) :
    creations before ≤ creations (before ++ after) :=
  (List.sublist_append_left before after).countP_le

theorem keeps_start : Keeps [] start :=
  ⟨numbered_start, fun id user => by simp [start, AppState.new, AppState.getUserById, Stored]⟩

theorem keeps_run (run : Run (Step shards argon2) start events s)
    (few : creations events ≤ 2 ^ 64) : Keeps events s := by
  refine run.invariant (I := fun events s => creations events ≤ 2 ^ 64 → Keeps events s)
    (fun _ => keeps_start) (fun {labels _ e _} ih hstep few => ?_) few
  exact (ih (Nat.le_trans (creations_append_le labels [e]) few)).step hstep few

/-- The invariant rule for runs with at most 2^64 creations: a step may use the entries. -/
theorem run_invariant {I : List Event → State → Prop} (init : I [] start)
    (keep : ∀ {events s e s'}, Keeps events s → I events s → Step shards argon2 s e s' →
      I (events ++ [e]) s')
    (run : Run (Step shards argon2) start events s) (few : creations events ≤ 2 ^ 64) :
    I events s := by
  refine (run.invariant (I := fun events s => creations events ≤ 2 ^ 64 →
    Keeps events s ∧ I events s) (fun _ => ⟨keeps_start, init⟩) ?_ few).2
  intro labels s e s' ih hstep few
  obtain ⟨keeps, holds⟩ := ih (Nat.le_trans (creations_append_le labels [e]) few)
  exact ⟨keeps.step hstep few, keep keeps holds hstep⟩

/-! ## A run -/

def ada : User := ⟨1, "ada@b.c", "saltpass", "Ada", 5, 6⟩
def bob : User := ⟨2, "bob@b.c", "saltword", "Bob", 7, 8⟩

/-- Even keys and odd keys. -/
def twoShards : Shards := ⟨2, fun id => id.toNat % 2, fun id => Nat.mod_lt _ (by decide)⟩

/-- A user is created, another one updated and a third one looked for in vain while a listing
goes on. The new user comes too late for its shard. -/
def sharedRun : List Event :=
  [⟨.create 0 ⟨"ada@b.c", "pass", "Ada"⟩, .pending⟩, ⟨.insert 0 "salt" 5 6, .created (.ok ada)⟩,
    ⟨.list 1, .pending⟩, ⟨.create 0 ⟨"bob@b.c", "word", "Bob"⟩, .pending⟩,
    ⟨.copy 2 1 ⟨none, none, some "Eve"⟩, .pending⟩, ⟨.visit 1 [], .pending⟩,
    ⟨.insert 0 "salt" 7 8, .created (.ok bob)⟩, ⟨.delete 3, .deleted none⟩,
    ⟨.visit 1 [1], .pending⟩]

def salted : Argon2 := fun salt password => some (salt ++ password)

theorem shared_run : ∃ s, Run (Step twoShards salted) start sharedRun s ∧
    s.app.users.keys.length = 2 ∧ s.pending 1 = some (.list 2 [ada]) ∧
    s.pending 2 = some (.update ada ⟨none, none, some "Eve"⟩) := by
  have run : Run (Step twoShards salted) start [] start := .nil
  have run := run.snoc (a := sharedRun[0]) rfl
  have run := run.snoc (a := sharedRun[1]) rfl
  have run := run.snoc (a := sharedRun[2]) rfl
  have run := run.snoc (a := sharedRun[3]) rfl
  have run := run.snoc (a := sharedRun[4]) rfl
  have run := run.snoc (a := sharedRun[5]) rfl
  have run := run.snoc (a := sharedRun[6]) rfl
  have run := run.snoc (a := sharedRun[7]) rfl
  have run := run.snoc (a := sharedRun[8]) rfl
  exact ⟨_, run, rfl, rfl, rfl⟩

/-- As long as no call of `delete_user` has removed a user, all that were created are stored. -/
theorem stored_of_undeleted (run : Run (Step shards argon2) start events s)
    (few : creations events ≤ 2 ^ 64)
    (undeleted : ∀ e ∈ events, ∀ user, e.answer ≠ .deleted (some user)) :
    ∀ user ∈ events.filterMap createdUser, Stored events user.id user := by
  refine run_invariant (I := fun events _ =>
    (∀ e ∈ events, ∀ user, e.answer ≠ .deleted (some user)) →
      ∀ user ∈ events.filterMap createdUser, Stored events user.id user)
    (by simp) ?_ run few undeleted
  intro events s e s' keeps stored hstep undeleted user created
  rw [stored_snoc]
  rw [List.filterMap_append, List.mem_append] at created
  rcases created with old | new
  · have there := stored (fun e mem => undeleted e (List.mem_append_left _ mem)) user old
    refine .inr ⟨there, fun deletes => ?_⟩
    -- the call would have removed the user
    obtain ⟨action, answer⟩ := e
    obtain rfl : action = .delete user.id := deletes
    have found := (keeps.entries _ user).mpr there
    cases hstep.moves with
    | delete id =>
      exact undeleted _ (List.mem_append_right _ (List.mem_singleton_self _)) user
        (congrArg Answer.deleted found)
  · obtain ⟨e', mem, made⟩ := List.mem_filterMap.mp new
    obtain rfl := List.mem_singleton.mp mem
    exact .inl ⟨rfl, made⟩

/-- In every run with at most 2^64 creations no two users have the same id. If none has been
deleted, the store has as many users as were created. -/
theorem ids_distinct (run : Run (Step shards argon2) start events s)
    (few : creations events ≤ 2 ^ 64) :
    (createdIds events).Nodup ∧
      ((∀ e ∈ events, ∀ user, e.answer ≠ .deleted (some user)) →
        s.app.users.keys.length = (createdIds events).length) := by
  have keeps := keeps_run run few
  refine ⟨keeps.distinct, fun undeleted => List.Perm.length_eq ?_⟩
  rw [List.perm_ext_iff_of_nodup s.app.users.keys_nodup keeps.distinct]
  intro id
  rw [← AList.mem_keys, KeyMap.mem_iff_get]
  constructor
  · rintro ⟨user, found⟩
    have stored := (keeps.entries id user).mp found
    exact List.mem_map.mpr ⟨user, stored.created, stored.1⟩
  · intro mem
    obtain ⟨user, created, rfl⟩ := List.mem_map.mp mem
    exact ⟨user, (keeps.entries _ user).mpr (stored_of_undeleted run few undeleted user created)⟩

theorem ids_distinct_shared : (createdIds sharedRun).Nodup ∧
    ∃ s, Run (Step twoShards salted) start sharedRun s ∧
      s.app.users.keys.length = (createdIds sharedRun).length := by
  obtain ⟨s, run, -⟩ := shared_run
  obtain ⟨distinct, all⟩ := ids_distinct run (by decide)
  exact ⟨distinct, s, run, all (by simp [sharedRun])⟩

/-! ## Calls that have read -/

/-- The users that a listing has found in the shards before `shard`, when it `began` after the
first events and others came `during` it: each shard as it was at some moment of the call. -/
structure Collected (shards : Shards) (began during : List Event) (shard : Nat)
    (found : List User) : Prop where
  once : (found.map User.id).Nodup
  passed : ∀ user ∈ found, shards.of user.id < shard
  moments : ∀ past < shard, ∃ mid rest, during = mid ++ rest ∧ ∀ user,
    shards.of user.id = past → (user ∈ found ↔ Stored (began ++ mid) user.id user)

/-- What a pending call has read, and when. The thread has done nothing else since. -/
def Copied (shards : Shards) (events : List Event) (t : Nat) : Pending → Prop
  | .create _ _ => True
  | .update user input => ∃ before after id,
      events = before ++ ⟨.copy t id input, .pending⟩ :: after ∧ Stored before id user ∧
      ∀ e ∈ after, e.action.thread ≠ some t
  | .list shard found => ∃ before after,
      events = before ++ ⟨.list t, .pending⟩ :: after ∧
      Collected shards (before ++ [⟨.list t, .pending⟩]) after shard found ∧
      ∀ e ∈ after, e.action.thread = some t → ∃ ids, e.action = .visit t ids

/-- What others do later changes nothing of what was read. -/
theorem Collected.snoc {began during : List Event} {shard : Nat} {found : List User}
    (h : Collected shards began during shard found) (e : Event) :
    Collected shards began (during ++ [e]) shard found := by
  refine ⟨h.once, h.passed, fun past lt => ?_⟩
  obtain ⟨mid, rest, rfl, there⟩ := h.moments past lt
  exact ⟨mid, rest ++ [e], List.append_assoc _ _ _, there⟩

section Shard
variable {ids : List UInt64} {shard : Nat}

/-- The users in a shard, whatever the order of its keys is. -/
theorem mem_clones (keeps : Keeps events s) (all : ids.Perm (s.app.shardKeys shards shard))
    {user : User} : user ∈ ids.filterMap s.app.getUserById ↔
      shards.of user.id = shard ∧ Stored events user.id user := by
  rw [List.mem_filterMap]
  constructor
  · rintro ⟨id, mem, found⟩
    have stored := (keeps.entries id user).mp found
    rw [stored.1]
    exact ⟨(AppState.mem_shardKeys.mp (all.mem_iff.mp mem)).1, stored⟩
  · rintro ⟨own, stored⟩
    have found := (keeps.entries _ user).mpr stored
    exact ⟨user.id, all.mem_iff.mpr (AppState.mem_shardKeys.mpr ⟨own, user, found⟩), found⟩

theorem clones_ids (keeps : Keeps events s) (all : ids.Perm (s.app.shardKeys shards shard)) :
    (ids.filterMap s.app.getUserById).map User.id = ids := by
  rw [List.map_filterMap, List.filterMap_congr fun id mem => ?_, List.filterMap_some]
  obtain ⟨-, user, found⟩ := AppState.mem_shardKeys.mp (all.mem_iff.mp mem)
  rw [found, Option.map_some, ((keeps.entries id user).mp found).1]

/-- The next shard is read. -/
theorem Collected.visit {began during : List Event} {found : List User}
    (h : Collected shards began during shard found) (keeps : Keeps (began ++ during) s)
    (all : ids.Perm (s.app.shardKeys shards shard)) (e : Event) :
    Collected shards began (during ++ [e]) (shard + 1)
      (found ++ ids.filterMap s.app.getUserById) := by
  refine ⟨?_, fun user mem => ?_, fun past lt => ?_⟩
  · rw [List.map_append, clones_ids keeps all]
    refine h.once.append (all.nodup_iff.mpr (s.app.shardKeys_nodup shards shard)) ?_
    -- the users found so far are of earlier shards
    intro id old mem
    obtain ⟨user, held, rfl⟩ := List.mem_map.mp old
    have past := h.passed user held
    rw [(AppState.mem_shardKeys.mp (all.mem_iff.mp mem)).1] at past
    exact Nat.lt_irrefl _ past
  · rcases List.mem_append.mp mem with old | mem
    · exact Nat.lt_succ_of_lt (h.passed user old)
    · rw [((mem_clones keeps all).mp mem).1]
      exact Nat.lt_succ_self _
  · rcases Nat.lt_succ_iff_lt_or_eq.mp lt with before | rfl
    · obtain ⟨mid, rest, rfl, there⟩ := h.moments past before
      refine ⟨mid, rest ++ [e], List.append_assoc _ _ _, fun user own => ?_⟩
      rw [List.mem_append, mem_clones keeps all, ← there user own]
      exact or_iff_left fun both => by omega
    · refine ⟨during, [e], rfl, fun user own => ?_⟩
      rw [List.mem_append, mem_clones keeps all]
      constructor
      · rintro (old | ⟨-, stored⟩)
        · exact absurd (h.passed user old) (by omega)
        · exact stored
      · exact fun stored => .inr ⟨own, stored⟩

end Shard

theorem Copied.snoc {t : Nat} {call : Pending} (h : Copied shards events t call)
    (other : e.action.thread ≠ some t) : Copied shards (events ++ [e]) t call := by
  cases call with
  | create id input => exact True.intro
  | update user input =>
    obtain ⟨before, after, id, rfl, stored, alone⟩ := h
    refine ⟨before, after ++ [e], id, by simp, stored, ?_⟩
    simpa [or_imp, forall_and, other] using alone
  | list shard found =>
    obtain ⟨before, after, rfl, read, alone⟩ := h
    refine ⟨before, after ++ [e], by simp, read.snoc e, ?_⟩
    simpa [or_imp, forall_and, other] using alone

/-- Every step keeps what the calls have read. -/
theorem copied_step (keeps : Keeps events s)
    (h : ∀ t call, s.pending t = some call → Copied shards events t call)
    (hstep : Step shards argon2 s e s') :
    ∀ t call, s'.pending t = some call → Copied shards (events ++ [e]) t call := by
  have older : ∀ t call, s.pending t = some call → e.action.thread ≠ some t →
      Copied shards (events ++ [e]) t call :=
    fun t call held other => (h t call held).snoc other
  have others : ∀ thread, e.action.thread = some thread → ∀ t ≠ thread, ∀ call,
      s.pending t = some call → Copied shards (events ++ [e]) t call := by
    intro thread own t apart call held
    exact older t call held fun same => apart (Option.some.inj (same.symm.trans own))
  cases hstep.moves with
  | create idle => exact forall_pending (others _ rfl) fun c own => by cases own; exact True.intro
  | insert held made => exact forall_pending (others _ rfl) (by simp)
  | unhashed held failed => exact forall_pending (others _ rfl) (by simp)
  | get id => exact fun t call held => older t call held (by simp [Action.thread])
  | @missed thread id input idle absent =>
    intro t call held
    refine others thread rfl t ?_ call held
    rintro rfl
    rw [idle] at held
    cases held
  | @copy thread id input user idle found =>
    refine forall_pending (others _ rfl) fun c own => ?_
    cases own
    exact ⟨events, [], id, rfl, (keeps.entries id user).mp found, by simp⟩
  | amend held => exact forall_pending (others _ rfl) (by simp)
  | delete id => exact fun t call held => older t call held (by simp [Action.thread])
  | list idle =>
    refine forall_pending (others _ rfl) fun c own => ?_
    cases own
    exact ⟨events, [], rfl, ⟨.nil, by simp, by simp⟩, by simp⟩
  | @visit thread ids shard found held all =>
    refine forall_pending (others _ rfl) fun c own => ?_
    cases own
    obtain ⟨before, after, rfl, read, alone⟩ := h thread _ held
    rw [List.append_cons] at keeps
    refine ⟨before, after ++ [⟨.visit thread ids, .pending⟩], by simp, read.visit keeps all _, ?_⟩
    intro e mem
    rcases List.mem_append.mp mem with mem | mem
    · exact alone e mem
    · rw [List.mem_singleton.mp mem]
      exact fun _ => ⟨ids, rfl⟩
  | collect held done => exact forall_pending (others _ rfl) (by simp)

theorem copied_run (run : Run (Step shards argon2) start events s)
    (few : creations events ≤ 2 ^ 64) (t : Nat) (call : Pending)
    (held : s.pending t = some call) : Copied shards events t call :=
  run_invariant (I := fun events s => ∀ t call, s.pending t = some call →
    Copied shards events t call) (by simp [start]) copied_step run few t call held

/-! ## Answers -/

/-- What an update returns: the user that was stored when it took its copy, amended. The thread
has done nothing in between. -/
def AmendedFrom (argon2 : Argon2) (before : List Event) (thread : Nat) (salt : String)
    (now : DateTime) (result : Except String User) : Prop :=
  ∃ earlier later id input u, before = earlier ++ ⟨.copy thread id input, .pending⟩ :: later ∧
    (∀ e ∈ later, e.action.thread ≠ some thread) ∧ Stored earlier id u ∧
      result = AppState.amended argon2 u input salt now

/-- What an event answers, after those before it. -/
def Answered (argon2 : Argon2) (before : List Event) : Event → Prop
  | ⟨.get id, answer⟩ => ∃ user, answer = .got user ∧ ∀ u, user = some u ↔ Stored before id u
  | ⟨.delete id, answer⟩ =>
    ∃ user, answer = .deleted user ∧ ∀ u, user = some u ↔ Stored before id u
  | ⟨.copy _ id _, answer⟩ =>
    (answer = .pending ∧ ∃ u, Stored before id u) ∨
      (answer = .updated (.error "User not found") ∧ ∀ u, ¬Stored before id u)
  | ⟨.amend thread salt now, answer⟩ =>
    ∃ result, answer = .updated result ∧ AmendedFrom argon2 before thread salt now result
  | _ => True

/-- In every run with at most 2^64 creations, lookups, deletions and updates answer by the
users as they were created: an update changes what it answers, and nothing that is stored. -/
theorem answers_exact (run : Run (Step shards argon2) start (before ++ e :: after) s)
    (few : creations (before ++ e :: after) ≤ 2 ^ 64) : Answered argon2 before e := by
  obtain ⟨mid, next, earlier, hstep⟩ := run.cut before e after rfl
  have fewer := Nat.le_trans (creations_append_le before (e :: after)) few
  have keeps := keeps_run earlier fewer
  cases hstep.moves with
  | get id => exact ⟨_, rfl, keeps.entries id⟩
  | delete id => exact ⟨_, rfl, keeps.entries id⟩
  | @missed thread id input idle absent =>
    refine .inr ⟨rfl, fun u stored => ?_⟩
    rw [(keeps.entries id u).mpr stored] at absent
    cases absent
  | @copy thread id input user idle found =>
    exact .inl ⟨rfl, user, (keeps.entries id user).mp found⟩
  | @amend thread salt now user input held =>
    obtain ⟨b, a, id, split, stored, alone⟩ := copied_run earlier fewer thread _ held
    exact ⟨_, rfl, b, a, id, input, user, split, alone, stored, rfl⟩
  | _ => exact True.intro

theorem answers_exact_shared :
    Answered salted sharedRun ⟨.amend 2 "salt" 9,
      .updated (.ok ⟨1, "ada@b.c", "saltpass", "Eve", 5, 9⟩)⟩ := by
  obtain ⟨s, run, -, -, held⟩ := shared_run
  have last : Step twoShards salted s ⟨.amend 2 "salt" 9,
      .updated (.ok ⟨1, "ada@b.c", "saltpass", "Eve", 5, 9⟩)⟩ (s.put 2 none) := by
    simp only [Step, perform, held]
    rfl
  exact answers_exact (run.snoc last) (by decide)

/-- What is stored and was created before has been stored since. -/
theorem Stored.earlier {later : List Event} {id : UInt64} {user : User}
    (h : Stored (events ++ later) id user) (created : user ∈ events.filterMap createdUser)
    (distinct : (createdIds (events ++ later)).Nodup) : Stored events id user := by
  induction later using List.reverseRecOn with
  | nil => simpa using h
  | append_singleton later e ih =>
    rw [← List.append_assoc] at h distinct
    rw [createdIds_snoc, List.nodup_append] at distinct
    obtain ⟨distinct, -, apart⟩ := distinct
    rcases stored_snoc.mp h with ⟨-, made⟩ | ⟨h, -⟩
    · -- it would have been created twice
      exact absurd rfl (apart _ (id_mem_createdIds created later) user.id (by simp [made]))
    · exact ih h distinct

/-- In every run, a listing that has ended, since the thread began it: the ids of its users
differ, each of them was stored at some moment of the call, and every user that was stored from
its beginning to its end is in it. -/
theorem listed_exact {thread : Nat} {users : List User}
    (run : Run (Step shards argon2) start (events ++ [⟨.collect thread, .listed users⟩]) s)
    (few : creations events ≤ 2 ^ 64) :
    ∃ before after, events = before ++ ⟨.list thread, .pending⟩ :: after ∧
      (∀ e ∈ after, e.action.thread = some thread → ∃ ids, e.action = .visit thread ids) ∧
      (users.map User.id).Nodup ∧
      (∀ user ∈ users, ∃ mid rest, after = mid ++ rest ∧
        Stored (before ++ ⟨.list thread, .pending⟩ :: mid) user.id user) ∧
      ∀ id user, Stored before id user → Stored events id user → user ∈ users := by
  obtain ⟨mid, next, earlier, hstep⟩ := run.cut events _ [] rfl
  have keeps := keeps_run earlier few
  generalize equal : (⟨.collect thread, .listed users⟩ : Event) = e at hstep
  cases hstep.moves with
  | @collect thread shard found held done =>
    cases equal
    obtain ⟨before, after, rfl, read, alone⟩ := copied_run earlier few thread _ held
    refine ⟨before, after, rfl, alone, read.once, fun user mem => ?_, fun id user first last => ?_⟩
    · obtain ⟨m, rest, split, there⟩ := read.moments _ (read.passed user mem)
      refine ⟨m, rest, split, ?_⟩
      simpa using (there user rfl).mp mem
    · obtain ⟨m, rest, rfl, there⟩ := read.moments _
        (Nat.lt_of_lt_of_le (shards.of_lt user.id) done)
      obtain rfl := first.1
      rw [List.append_cons, ← List.append_assoc] at last keeps
      refine (there user rfl).mpr (last.earlier ?_ keeps.distinct)
      rw [List.append_assoc, List.filterMap_append]
      exact List.mem_append_left _ first.created
  | _ => cases equal

theorem listed_exact_shared :
    ∃ before after, sharedRun = before ++ ⟨.list 1, .pending⟩ :: after ∧
      (∀ e ∈ after, e.action.thread = some 1 → ∃ ids, e.action = .visit 1 ids) ∧
      ([ada].map User.id).Nodup ∧
      (∀ user ∈ [ada], ∃ mid rest, after = mid ++ rest ∧
        Stored (before ++ ⟨.list 1, .pending⟩ :: mid) user.id user) ∧
      ∀ id user, Stored before id user → Stored sharedRun id user → user ∈ [ada] := by
  obtain ⟨s, run, -, held, -⟩ := shared_run
  have last : Step twoShards salted s ⟨.collect 1, .listed [ada]⟩ (s.put 1 none) := by
    simp [Step, perform, held, twoShards]
  exact listed_exact (run.snoc last) (by decide)

end ExampleServer

end SimplyProxy
