import TrieDB.Ownership
import TrieDB.HashtableLookup

/-!
The databases the clients select, over every run of the server. A client
starts on the database `dbs` finds for `"db0"` and moves only by USE, to the
database `dbs` finds for the name or to the one USE appends and names. Every
other handler keeps the number of databases and `dbs`, and USE only adds to
both, so in every state the server reaches, each client's database exists and
so does every database `dbs` names: the `c->db` every handler reads is never
dangling.
-/
namespace TrieDB

namespace Triedb

structure SameDatabases (s s' : Triedb) : Prop where
  length : s'.databases.length = s.databases.length
  dbs : s'.dbs = s.dbs

theorem SameDatabases.refl (s : Triedb) : SameDatabases s s := ⟨rfl, rfl⟩

theorem SameDatabases.trans {s₁ s₂ s₃ : Triedb} (first : SameDatabases s₁ s₂) (second : SameDatabases s₂ s₃) :
    SameDatabases s₁ s₃ :=
  ⟨second.length.trans first.length, second.dbs.trans first.dbs⟩

theorem sameDatabases_of_set {s s' : Triedb} {d : Nat} {db : Database} (same : s'.databases = s.databases.set d db)
    (dbs : s'.dbs = s.dbs) : SameDatabases s s' :=
  ⟨same ▸ List.length_set .., dbs⟩

def DbsBounded (s : Triedb) : Prop := ∀ kv, some kv ∈ s.dbs.entries → kv.2 < s.databases.length

theorem DbsBounded.of_same {s s' : Triedb} (bounded : s.DbsBounded) (same : SameDatabases s s') :
    s'.DbsBounded := by
  intro kv mem
  rw [same.length]
  exact bounded kv (same.dbs ▸ mem)

end Triedb

section Handlers
variable {s s' : Triedb} {c : Client} {now later : Int} {header : UInt8} {key : CStr} {reply : Bstring}

theorem sameDatabases_getExpire {item : Nat} (done : getExpire s c key item = some s') : s.SameDatabases s' := by
  simp only [getExpire, Option.bind_eq_bind, Option.pure_def] at done
  obtain ⟨db, -, done⟩ := Option.bind_eq_some_iff.mp done
  obtain ⟨⟨db', items, ret⟩, -, done⟩ := Option.bind_eq_some_iff.mp done
  cases done
  exact Triedb.sameDatabases_of_set rfl rfl

-- The loop of a prefix GET and the expiry sweep rewrite one database per round.
theorem sameDatabases_getPrefixExpire :
    ∀ (fuel : Nat) {s s' : Triedb} {v v' : Vector (KvObj Nat)} {i : Nat},
      getPrefixExpire c key now fuel s v i = some (s', v') → s.SameDatabases s'
  | 0, _, _, _, _, _, done => by
    unfold getPrefixExpire at done
    split_ifs at done
    cases done
    exact ⟨rfl, rfl⟩
  | fuel + 1, s, _, _, _, _, done => by
    unfold getPrefixExpire at done
    split_ifs at done
    · simp only [Option.bind_eq_bind] at done
      obtain ⟨cur, -, done⟩ := Option.bind_eq_some_iff.mp done
      obtain ⟨item, -, done⟩ := Option.bind_eq_some_iff.mp done
      split_ifs at done
      · obtain ⟨s₁, expired, done⟩ := Option.bind_eq_some_iff.mp done
        exact (sameDatabases_getExpire expired).trans (sameDatabases_getPrefixExpire fuel done)
      · exact sameDatabases_getPrefixExpire fuel done
    · cases done
      exact ⟨rfl, rfl⟩

theorem sameDatabases_expireKeysLoop :
    ∀ (fuel : Nat) {s s' : Triedb} {i : Nat}, expireKeysLoop now fuel s i = some s' → s.SameDatabases s'
  | 0, _, _, _, done => by
    unfold expireKeysLoop at done
    split_ifs at done
    cases done
    exact ⟨rfl, rfl⟩
  | fuel + 1, s, _, _, done => by
    unfold expireKeysLoop at done
    split_ifs at done
    · simp only [Option.bind_eq_bind] at done
      obtain ⟨ek, -, done⟩ := Option.bind_eq_some_iff.mp done
      obtain ⟨item, -, done⟩ := Option.bind_eq_some_iff.mp done
      split_ifs at done
      · cases done
        exact ⟨rfl, rfl⟩
      · obtain ⟨db, -, done⟩ := Option.bind_eq_some_iff.mp done
        obtain ⟨⟨t, items, ret⟩, -, done⟩ := Option.bind_eq_some_iff.mp done
        have rest := sameDatabases_expireKeysLoop fuel done
        exact ⟨rest.length.trans (List.length_set ..), rest.dbs⟩
    · cases done
      exact ⟨rfl, rfl⟩

theorem sameDatabases_expireKeys (done : expireKeys s now = some s') : s.SameDatabases s' := by
  unfold expireKeys at done
  split_ifs at done
  · cases done
    exact ⟨rfl, rfl⟩
  · exact sameDatabases_expireKeysLoop _ done

theorem sameDatabases_putHandler {ttl : Int32} {val : CStr}
    (done : putHandler s c now header ttl key val = some (s', reply)) : s.SameDatabases s' := by
  simp only [putHandler, Option.bind_eq_bind, Option.pure_def] at done
  obtain ⟨db, -, done⟩ := Option.bind_eq_some_iff.mp done
  split_ifs at done
  · obtain ⟨items, -, done⟩ := Option.bind_eq_some_iff.mp done
    cases done
    exact ⟨rfl, rfl⟩
  · obtain ⟨⟨db', items⟩, -, done⟩ := Option.bind_eq_some_iff.mp done
    cases done
    exact Triedb.sameDatabases_of_set rfl rfl

theorem sameDatabases_getHandler (done : getHandler s c now later header key = some (s', reply)) :
    s.SameDatabases s' := by
  simp only [getHandler, Option.bind_eq_bind, Option.pure_def] at done
  obtain ⟨db, -, done⟩ := Option.bind_eq_some_iff.mp done
  split_ifs at done
  · obtain ⟨searched, -, done⟩ := Option.bind_eq_some_iff.mp done
    split at done
    · obtain ⟨item, -, done⟩ := Option.bind_eq_some_iff.mp done
      split_ifs at done
      · obtain ⟨s₁, expired, done⟩ := Option.bind_eq_some_iff.mp done
        cases done
        exact sameDatabases_getExpire expired
      · obtain ⟨packed, -, done⟩ := Option.bind_eq_some_iff.mp done
        cases done
        exact ⟨rfl, rfl⟩
    · cases done
      exact ⟨rfl, rfl⟩
  · obtain ⟨v, -, done⟩ := Option.bind_eq_some_iff.mp done
    obtain ⟨v, -, done⟩ := Option.bind_eq_some_iff.mp done
    obtain ⟨⟨s₁, v₁⟩, swept, done⟩ := Option.bind_eq_some_iff.mp done
    obtain ⟨tuples, -, done⟩ := Option.bind_eq_some_iff.mp done
    obtain ⟨packed, -, done⟩ := Option.bind_eq_some_iff.mp done
    cases done
    exact sameDatabases_getPrefixExpire _ swept

theorem sameDatabases_delHandler (done : delHandler s c header key = some (s', reply)) :
    s.SameDatabases s' := by
  simp only [delHandler, Option.bind_eq_bind, Option.pure_def] at done
  obtain ⟨db, -, done⟩ := Option.bind_eq_some_iff.mp done
  split_ifs at done
  · obtain ⟨⟨db', items⟩, -, done⟩ := Option.bind_eq_some_iff.mp done
    cases done
    exact Triedb.sameDatabases_of_set rfl rfl
  · obtain ⟨⟨db', items, found⟩, -, done⟩ := Option.bind_eq_some_iff.mp done
    split_ifs at done <;> cases done <;> exact Triedb.sameDatabases_of_set rfl rfl

theorem sameDatabases_ttlHandler {ttl : Int32} (done : ttlHandler s c now key ttl = some (s', reply)) :
    s.SameDatabases s' := by
  simp only [ttlHandler, Option.bind_eq_bind, Option.pure_def] at done
  obtain ⟨db, -, done⟩ := Option.bind_eq_some_iff.mp done
  split at done
  · obtain ⟨item, -, done⟩ := Option.bind_eq_some_iff.mp done
    obtain ⟨items, -, done⟩ := Option.bind_eq_some_iff.mp done
    obtain ⟨eks, -, done⟩ := Option.bind_eq_some_iff.mp done
    cases done
    exact ⟨rfl, rfl⟩
  · cases done
    exact ⟨rfl, rfl⟩

theorem sameDatabases_integerHandler {num : Int32}
    {prefixMod : SlotHeap DbItem → Database → CStr → Int → Option (SlotHeap DbItem)}
    (done : integerHandler num prefixMod s c now header key = some (s', reply)) : s.SameDatabases s' := by
  simp only [integerHandler, Option.bind_eq_bind, Option.pure_def] at done
  obtain ⟨db, -, done⟩ := Option.bind_eq_some_iff.mp done
  split_ifs at done <;>
  · obtain ⟨items, -, done⟩ := Option.bind_eq_some_iff.mp done
    cases done
    exact ⟨rfl, rfl⟩

theorem useHandler_bounded {c' : Client} (bounded : s.DbsBounded) (done : useHandler s key = some (s', c', reply)) :
    s'.DbsBounded ∧ c'.db < s'.databases.length ∧ s.databases.length ≤ s'.databases.length := by
  unfold useHandler at done
  split at done
  · next database found =>
    cases done
    obtain ⟨k, mem⟩ := hashtableGet_mem found
    exact ⟨bounded, bounded (k, database) mem, le_refl _⟩
  · obtain ⟨dbs, put, done⟩ := Option.bind_eq_some_iff.mp done
    cases done
    have grown : (s.databases ++ [databaseInit key (some trieNodeDestructor)]).length = s.databases.length + 1 := by
      simp
    refine ⟨fun kv mem => ?_, by simp, by simp⟩
    rw [grown]
    exact hashtablePut_values (· < s.databases.length + 1) (fun kv mem => Nat.lt_succ_of_lt (bounded kv mem))
      (Nat.lt_succ_self _) put kv mem

end Handlers

theorem withClient_client {c c' : Client} {r : Option (Triedb × Bstring)} {s' : Triedb} {reply : Bstring}
    (done : withClient c r = some (s', c', reply)) : c' = c := by
  obtain ⟨⟨s₁, r₁⟩, -, same⟩ := Option.map_eq_some_iff.mp done
  cases same
  rfl

theorem handle_sameDatabases_or_use {conf : Config} {infos : Informations} {s s' : Triedb} {c c' : Client}
    {now later : Int} {req : Request} {reply : Bstring}
    (done : handle conf infos s c now later req = some (s', c', reply)) :
    (s.SameDatabases s' ∧ c' = c) ∨ ∃ key, useHandler s key = some (s', c', reply) := by
  have answers : ∀ {r : Option Bstring}, r.map (fun reply => (s, c, reply)) = some (s', c', reply) →
      s.SameDatabases s' ∧ c' = c := fun answered => by
    obtain ⟨_, -, same⟩ := Option.map_eq_some_iff.mp answered
    cases same
    exact ⟨Triedb.SameDatabases.refl _, rfl⟩
  unfold handle at done
  split at done
  next => exact .inl ⟨sameDatabases_putHandler (withClient_eq_some done), withClient_client done⟩
  next => exact .inl ⟨sameDatabases_getHandler (withClient_eq_some done), withClient_client done⟩
  next => exact .inl ⟨sameDatabases_delHandler (withClient_eq_some done), withClient_client done⟩
  next => exact .inl ⟨sameDatabases_ttlHandler (withClient_eq_some done), withClient_client done⟩
  next => exact .inl ⟨sameDatabases_integerHandler (withClient_eq_some done), withClient_client done⟩
  next => exact .inl ⟨sameDatabases_integerHandler (withClient_eq_some done), withClient_client done⟩
  next => exact .inl (answers done)
  next => exact .inr ⟨_, done⟩
  next => exact .inl (answers done)
  next =>
    cases done
    exact .inl ⟨Triedb.SameDatabases.refl _, rfl⟩
  next => exact .inl (answers done)
  next =>
    cases done
    exact .inl ⟨Triedb.SameDatabases.refl _, rfl⟩
  next => cases done

structure ClientsOnDatabases (srv : Server) : Prop where
  dbs : srv.triedb.DbsBounded
  clients : ∀ c ∈ srv.clients, c.db < srv.triedb.databases.length

section Runs
variable {conf : Config} {infos : Informations}

theorem ClientsOnDatabases.of_serverStep {srv srv' : Server} {w : WorkerStep} (inv : ClientsOnDatabases srv)
    (step : serverStep conf infos srv w = some srv') : ClientsOnDatabases srv' := by
  cases w with
  | accept =>
    obtain ⟨db, found, done⟩ := Option.bind_eq_some_iff.mp step
    cases done
    obtain ⟨k, mem⟩ := hashtableGet_mem found
    refine ⟨inv.dbs, fun c joined => ?_⟩
    rcases List.mem_append.mp joined with old | new
    · exact inv.clients c old
    · rw [List.mem_singleton.mp new]
      exact inv.dbs (k, db) mem
  | request i now later req =>
    obtain ⟨c, found, done⟩ := Option.bind_eq_some_iff.mp step
    obtain ⟨⟨triedb, c', reply⟩, handled, done⟩ := Option.bind_eq_some_iff.mp done
    cases done
    have client := inv.clients c (List.mem_of_getElem? found)
    rcases handle_sameDatabases_or_use handled with ⟨same, rfl⟩ | ⟨key, used⟩
    · refine ⟨inv.dbs.of_same same, fun c₁ mem => ?_⟩
      rw [same.length]
      rcases List.mem_or_eq_of_mem_set mem with old | rfl
      · exact inv.clients c₁ old
      · exact client
    · obtain ⟨bounded, selected, grown⟩ := useHandler_bounded inv.dbs used
      refine ⟨bounded, fun c₁ mem => ?_⟩
      rcases List.mem_or_eq_of_mem_set mem with old | rfl
      · exact Nat.lt_of_lt_of_le (inv.clients c₁ old) grown
      · exact selected
  | expire now =>
    obtain ⟨triedb, expired, done⟩ := Option.bind_eq_some_iff.mp step
    cases done
    have same := sameDatabases_expireKeys expired
    exact ⟨inv.dbs.of_same same, fun c mem => same.length ▸ inv.clients c mem⟩

theorem clientsOnDatabases_startState {srv : Server} (started : startState = some srv) :
    ClientsOnDatabases srv := by
  obtain ⟨triedb, built, rfl⟩ := Option.map_eq_some_iff.mp started
  simp only [startServer, Option.bind_eq_bind, Option.pure_def] at built
  obtain ⟨dbs, put, same⟩ := Option.bind_eq_some_iff.mp built
  cases same
  refine ⟨fun kv mem => ?_, fun c mem => by cases mem⟩
  exact hashtablePut_values (· < 1) (fun kv mem => by simp [hashtableNew] at mem) Nat.zero_lt_one put kv mem

end Runs

/-- In every state the server reaches, whatever the interleaving of clients,
requests and expiry ticks, the database of every client exists, and so does
every database `dbs` names. -/
theorem run_client_database_exists (conf : Config) (infos : Informations) (ops : List WorkerStep)
    {srv : Server} (ran : (startState.bind fun s => OpRun.run (serverStep conf infos) s ops) = some srv) :
    (∀ c ∈ srv.clients, ∃ db, srv.triedb.database c.db = some db) ∧
      ∀ kv, some kv ∈ srv.triedb.dbs.entries → ∃ db, srv.triedb.database kv.2 = some db := by
  obtain ⟨start, started, rest⟩ := Option.bind_eq_some_iff.mp ran
  have inv := OpRun.run_preserves (fun _ _ _ (inv : ClientsOnDatabases _) step => inv.of_serverStep step) ops
    start srv (clientsOnDatabases_startState started) rest
  have exists_of_lt : ∀ d, d < srv.triedb.databases.length → ∃ db, srv.triedb.database d = some db :=
    fun d inside => ⟨_, List.getElem?_eq_getElem inside⟩
  exact ⟨fun c mem => exists_of_lt c.db (inv.clients c mem), fun kv mem => exists_of_lt kv.2 (inv.dbs kv mem)⟩

theorem run_client_database_exists_use :
    ∃ srv, (startState.bind fun s =>
        OpRun.run (serverStep ⟨CStr.empty, 0, 0, 0, CStr.empty, CStr.empty, CStr.empty, 0, 0, 0, 0⟩
          ⟨0, 0, 0, 0, 0, 0, 0, 0⟩) s
          [.accept, .request 0 0 0 (.get 0x80 ⟨[120], by decide⟩), .accept,
            .request 1 1 1 (.put 0x10 (-1) ⟨[97], by decide⟩ ⟨[49], by decide⟩),
            .request 0 2 2 (.put 0x10 (-1) ⟨[98], by decide⟩ ⟨[50], by decide⟩)]) = some srv ∧
      (∀ c ∈ srv.clients, ∃ db, srv.triedb.database c.db = some db) ∧
        ∀ kv, some kv ∈ srv.triedb.dbs.entries → ∃ db, srv.triedb.database kv.2 = some db :=
  ⟨_, rfl, run_client_database_exists ⟨CStr.empty, 0, 0, 0, CStr.empty, CStr.empty, CStr.empty, 0, 0, 0, 0⟩
    ⟨0, 0, 0, 0, 0, 0, 0, 0⟩
    [.accept, .request 0 0 0 (.get 0x80 ⟨[120], by decide⟩), .accept,
      .request 1 1 1 (.put 0x10 (-1) ⟨[97], by decide⟩ ⟨[49], by decide⟩),
      .request 0 2 2 (.put 0x10 (-1) ⟨[98], by decide⟩ ⟨[50], by decide⟩)] rfl⟩

end TrieDB
