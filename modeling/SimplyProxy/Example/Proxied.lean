import SimplyProxy.Example.Handlers
import SimplyProxy.Example.Store
import SimplyProxy.Proxy.JsonDocument

/-!
# The example server behind the proxy

A client of the proxy gets what the response body filter makes of a response of the example
server. `ShowsUser` is what it reads of a user: the members, an exact id, and the mark.

`proxied_exact`: in every run of the server, of every response with a JSON body, the client
reads exactly the users that were answered, and each has the id of a user that was created.
-/

namespace SimplyProxy
namespace ExampleServer
open Runs JsonText SimpleProxy

/-! ## What a client reads -/

/-- The object of a user, marked. There is no password in it. -/
structure ShowsMembers (rfc3339 : DateTime → String) (user : User)
    (member : String → Option (DocTree Lit)) : Prop where
  id : ∃ l : Lit, member "id" = some (.num l) ∧ l.value = user.id.toNat
  emila : member "emila" = some (.str user.emila)
  name : member "name" = some (.str user.name)
  createdAt : member "created_at" = some (.str (rfc3339 user.createdAt))
  updatedAt : member "updated_at" = some (.str (rfc3339 user.updatedAt))
  mark : member "x-simple-proxy" = some (.str "v0.1")
  others : ∀ name, name ∉ ["id", "emila", "name", "created_at", "updated_at", "x-simple-proxy"] →
    member name = none

def ShowsUser (rfc3339 : DateTime → String) (user : User) (t : DocTree Lit) : Prop :=
  ∃ member, t = .obj member ∧ ShowsMembers rfc3339 user member

/-- The users of an answer, one after the other when it is a listing. -/
def ShowsAnswer (rfc3339 : DateTime → String) : Answer → DocTree Lit → Prop
  | .created (.ok user), t | .got (some user), t | .updated (.ok user), t
  | .deleted (some user), t => ShowsUser rfc3339 user t
  | .listed users, t => ∃ items, t = .arr items ∧ List.Forall₂ (ShowsUser rfc3339) users items
  | _, _ => False

/-- Whatever text of the document the upstream sends, and however it is cut: if the parser takes
it, then the client gets the text of a document with the property. -/
def ClientReads (serde : SerdeJson) (header : ResponseHeader) (doc : Doc)
    (P : DocTree Lit → Prop) : Prop :=
  ∀ init last v, read (joined (init ++ [last])) = some doc →
    serde.fromSlice (joined (init ++ [last])) = some v →
    ∃ bodies ctx d', runBody serde (responseCtx header) (calls init last) = .ok (bodies, ctx) ∧
      read (joined bodies) = some d' ∧ P d'.tree

def Answer.users : Answer → List User
  | .pending => []
  | .created result | .updated result => result.toOption.toList
  | .got user | .deleted user => user.toList
  | .listed users => users

/-! ## Users -/

variable {rfc3339 : DateTime → String} {shards : Shards} {argon2 : Argon2} {s : State} {e : Event}
  {before after : List Event}

/-- An id fits 64 bits, so it is kept. -/
theorem sameNumber_id {id : UInt64} {l : Lit}
    (same : SameNumber ⟨false, id.toNat, [], none⟩ l) : l.value = id.toNat := by
  have value : (⟨false, id.toNat, [], none⟩ : Lit).value = id.toNat := by
    rw [lit_value_int ⟨rfl, rfl⟩]
    simp
  refine (same ⟨⟨rfl, rfl⟩, ?_, ?_⟩).trans value
  · rw [value]
    exact le_trans (by norm_num) (Nat.cast_nonneg _)
  · rw [value]
    exact_mod_cast id.toNat_lt

/-- The object of a user, marked and with numbers that are the same. -/
theorem showsUser_of_rel {user : User} {t : DocTree Lit}
    (h : DocTree.Rel SameNumber
      ((user.toJson rfc3339).tree.setMember "x-simple-proxy" (.str "v0.1")) t) :
    ShowsUser rfc3339 user t := by
  obtain ⟨member, rfl, related, texts, absent⟩ := h.member
  refine ⟨member, rfl, ?_, texts "emila" _ rfl, texts "name" _ rfl, texts "created_at" _ rfl,
    texts "updated_at" _ rfl, texts "x-simple-proxy" _ rfl, fun name other => absent name ?_⟩
  · obtain ⟨t', own, same⟩ := related "id" (.num ⟨false, user.id.toNat, [], none⟩) rfl
    cases same with
    | num same => exact ⟨_, own, sameNumber_id same⟩
  · simp only [List.mem_cons, List.not_mem_nil, or_false, not_or] at other
    simp [memberTree, other]

/-- A response with a JSON body, read through the proxy. -/
theorem showsAnswer_of_rel {status : UInt16} {doc : Doc} {answer : Answer}
    (response : respond rfc3339 answer = some ⟨status, .json doc⟩) {t : DocTree Lit}
    (h : DocTree.Rel SameNumber (tagTree doc.tree) t) : ShowsAnswer rfc3339 answer t := by
  have result : ∀ result, respondResult rfc3339 result = ⟨status, .json doc⟩ →
      ∃ user, result = .ok user ∧ ShowsUser rfc3339 user t := by
    intro result equal
    cases result with
    | ok user =>
      cases equal
      exact ⟨user, rfl, showsUser_of_rel h⟩
    | error e => cases equal
  have found : ∀ user, respondFound rfc3339 user = ⟨status, .json doc⟩ →
      ∃ u, user = some u ∧ ShowsUser rfc3339 u t := by
    intro user equal
    cases user with
    | some u =>
      cases equal
      exact ⟨u, rfl, showsUser_of_rel h⟩
    | none => cases equal
  cases answer with
  | pending => cases response
  | created made =>
    obtain ⟨user, rfl, shown⟩ := result made (Option.some.inj response)
    exact shown
  | got user =>
    obtain ⟨u, rfl, shown⟩ := found user (Option.some.inj response)
    exact shown
  | updated made =>
    obtain ⟨user, rfl, shown⟩ := result made (Option.some.inj response)
    exact shown
  | deleted user =>
    obtain ⟨u, rfl, shown⟩ := found user (Option.some.inj response)
    exact shown
  | listed users =>
    cases response
    obtain ⟨items, rfl, related⟩ := h.items
    refine ⟨items, rfl, ?_⟩
    rw [itemTrees_eq_map, List.map_map, List.map_map, List.forall₂_map_left_iff] at related
    exact related.imp fun user t => showsUser_of_rel

/-! ## Runs -/

/-- Users that were stored were created. -/
theorem Stored.id_mem {id : UInt64} {user : User} (h : Stored before id user)
    (rest : List Event) : user.id ∈ createdIds (before ++ rest) :=
  id_mem_createdIds h.created rest

/-- An update keeps the id. -/
theorem amended_id {user user' : User} {input : UpdateUser} {salt : String} {now : DateTime}
    (h : AppState.amended argon2 user input salt now = .ok user') : user'.id = user.id := by
  obtain ⟨email, password, name⟩ := input
  cases password with
  | none => cases email <;> cases name <;> cases h <;> rfl
  | some password =>
    unfold AppState.amended at h
    rcases hashPassword_cases argon2 salt password with failed | ⟨hash, hashed⟩
    · simp only [failed] at h
      cases h
    · simp only [hashed] at h
      cases email <;> cases name <;> cases h <;> rfl

/-- Every user that is answered has the id of one that was created. -/
theorem answered_created (run : Run (Step shards argon2) start (before ++ e :: after) s)
    (few : creations (before ++ e :: after) ≤ 2 ^ 64) :
    ∀ user ∈ e.answer.users, user.id ∈ createdIds (before ++ [e]) := by
  obtain ⟨mid, next, earlier, hstep⟩ := run.cut before e after rfl
  have fewer := Nat.le_trans (creations_append_le before (e :: after)) few
  have keeps := keeps_run earlier fewer
  have found : ∀ id user, user ∈ (mid.app.getUserById id).toList →
      user.id ∈ createdIds (before ++ [e]) := by
    intro id user mem
    exact ((keeps.entries id user).mp (Option.mem_toList.mp mem)).id_mem [e]
  intro user mem
  cases hstep.moves with
  | insert held new =>
    rw [createdIds_snoc, List.mem_singleton.mp mem]
    exact List.mem_append_right _ (List.mem_singleton_self _)
  | get id => exact found id user mem
  | delete id => exact found id user mem
  | @amend thread salt now u input held =>
    obtain ⟨b, a, id, split, stored, -⟩ := copied_run earlier fewer thread _ held
    cases result : AppState.amended argon2 u input salt now with
    | error e =>
      rw [result] at mem
      cases mem
    | ok user' =>
      rw [result] at mem
      rw [List.mem_singleton.mp mem, amended_id result, split, List.append_assoc]
      exact stored.id_mem _
  | @collect thread shard listed held done =>
    obtain ⟨b, a, split, read, -⟩ := copied_run earlier fewer thread _ held
    obtain ⟨m, rest, rfl, there⟩ := read.moments _ (read.passed user mem)
    rw [split, List.append_cons b, ← List.append_assoc, List.append_assoc]
    exact ((there user rfl).mp mem).id_mem _
  | _ => cases mem

/-- In every run with at most 2^64 creations, of each response with a JSON body that is sent
through the proxy: the client reads the users that were answered, without passwords, and each
has the id of a user that was created. -/
theorem proxied_exact {serde : SerdeJson} (documented : serde.Documented)
    {header : ResponseHeader} {c : String}
    (contentType : (responseCtx header).respContentType = some c) (json : isJson c = true)
    (run : Run (Step shards argon2) start (before ++ e :: after) s)
    (few : creations (before ++ e :: after) ≤ 2 ^ 64) {status : UInt16} {doc : Doc}
    (response : respond rfc3339 e.answer = some ⟨status, .json doc⟩) :
    ClientReads serde header doc (ShowsAnswer rfc3339 e.answer) ∧
      ∀ user ∈ e.answer.users, user.id ∈ createdIds (before ++ [e]) := by
  refine ⟨fun init last v text parsed => ?_, answered_created run few⟩
  obtain ⟨bodies, ctx, d', body, text', same⟩ :=
    rewritten_document documented contentType json text parsed
  exact ⟨bodies, ctx, d', body, text', showsAnswer_of_rel response same⟩

/-- The user of `signUp`, and the text that the server sends for it. -/
def signedUp : User := ⟨1, "ada@b.c", "f00d", "Ada", 5, 6⟩
def signedUpText : Bytes := write (signedUp.toJson toString)

/-- The user is looked up, in two chunks. -/
theorem proxied_exact_signUp :
    ∃ bodies ctx d', runBody .reference (responseCtx jsonHeader)
          (calls [some (signedUpText.take 9)] (some (signedUpText.drop 9))) = .ok (bodies, ctx) ∧
      read (joined bodies) = some d' ∧ ShowsUser toString signedUp d'.tree := by
  obtain ⟨s, run⟩ := signUp_run twoShards "pass" "f00d"
  have run : Run (Step twoShards fun _ _ => some "f00d") start
      ((signUp "pass" "f00d").take 2 ++ ⟨.get 1, .got (some signedUp)⟩ :: []) s := run
  have contentType : (responseCtx jsonHeader).respContentType = some "application/json" := by
    decide
  have text : read (joined ([some (signedUpText.take 9)] ++ [some (signedUpText.drop 9)])) =
      some (signedUp.toJson toString) := by
    rw [joined_append, joined_singleton, joined_singleton, Option.getD_some, Option.getD_some,
      List.take_append_drop, signedUpText, read_write]
  have parsed : ∃ v, SerdeJson.reference.fromSlice
      (joined ([some (signedUpText.take 9)] ++ [some (signedUpText.drop 9)])) = some v := by
    simp only [SerdeJson.reference, text, Option.bind_some]
    exact ⟨_, rfl⟩
  obtain ⟨v, parsed⟩ := parsed
  exact (proxied_exact SerdeJson.reference_documented contentType (by decide) run (by decide)
    rfl).1 _ _ v text parsed

end ExampleServer

end SimplyProxy
