import TrieDB.Server

/-!
What `get_handler` answers for a key with a TTL. It reads the clock twice for
a plain GET: `database_search` hides a key with `ttl > -1` once `ttl` seconds
have passed at the first read, and the lazy removal takes `ttl != -1` and no
time left at the second. A key whose deadline falls between the two reads is
removed; otherwise a nonnegative TTL that has run out gets NOK and stays bound,
and only a TTL below `-1` is ever removed. A prefix GET on a prefix with no
trie path reads `vector_size(NULL)`.
-/
namespace TrieDB

section Plain
variable {s : Triedb} {c : Client} {now later : Int} {header : UInt8} {key : CStr} {db : Database}
  (plain : headerPrefix header = false) (hdb : s.database c.db = some db)
include plain hdb

theorem getHandler_of_found {a : Nat} {item : DbItem}
    (found : databaseSearch s.items db key now = some (true, some a)) (live : s.items.load a = some item) :
    getHandler s c now later header key =
      if item.ttl.toInt ≠ -1 ∧ item.delta later ≤ 0 then (getExpire s c key a).map (·, ackReplies NOK)
      else (packResponse (.val header ⟨item.ttl.toInt32, key.length % 2 ^ 16, key, item.data⟩)
        (headerOpcode header)).map (s, ·) := by
  simp only [getHandler, hdb, plain, found, live, Option.bind_eq_bind, Option.bind_some,
    Bool.not_false, if_true, Option.pure_def]
  split_ifs
  · cases getExpire s c key a <;> rfl
  · cases packResponse (.val header ⟨item.ttl.toInt32, key.length % 2 ^ 16, key, item.data⟩)
      (headerOpcode header) <;> rfl

theorem getHandler_of_not_found (missing : databaseSearch s.items db key now = some (false, none)) :
    getHandler s c now later header key = some (s, ackReplies NOK) := by
  simp [getHandler, hdb, plain, missing]

/-- A plain GET of a bound key: `database_search` lets the item through at
`now` when its TTL is at most `-1` or time is left, and the lazy removal then
takes it when its TTL is not `-1` and its deadline is at or before `later`. -/
theorem getHandler_of_bound {a : Nat} {item : DbItem}
    (bound : trieNodeSearch db.data.root key.bytes = some a) (live : s.items.load a = some item) :
    getHandler s c now later header key =
      if item.ttl.toInt ≤ -1 ∨ now - item.ctime < item.ttl.toInt then
        if item.ttl.toInt ≠ -1 ∧ item.ctime + item.ttl.toInt ≤ later then
          (getExpire s c key a).map (·, ackReplies NOK)
        else (packResponse (.val header ⟨item.ttl.toInt32, key.length % 2 ^ 16, key, item.data⟩)
          (headerOpcode header)).map (s, ·)
      else some (s, ackReplies NOK) := by
  have search := databaseSearch_of_bound bound live now
  by_cases through : item.ttl.toInt ≤ -1 ∨ now - item.ctime < item.ttl.toInt
  · have kept : (!(decide (item.ttl.toInt > -1) && decide (item.ttl.toInt ≤ now - item.ctime))) = true := by
      simp only [gt_iff_lt, Bool.not_and, Bool.or_eq_true, Bool.not_eq_eq_eq_not, Bool.not_true,
        decide_eq_false_iff_not]
      omega
    have found : databaseSearch s.items db key now = some (true, some a) := by
      rw [search, kept, if_pos rfl]
    have delta : item.delta later = item.ctime + item.ttl.toInt - later := rfl
    rw [getHandler_of_found plain hdb found live, if_pos through]
    by_cases lazy : item.ttl.toInt ≠ -1 ∧ item.ctime + item.ttl.toInt ≤ later
    · rw [if_pos lazy, if_pos (by omega)]
    · rw [if_neg lazy, if_neg (by omega)]
  · have missing : databaseSearch s.items db key now = some (false, none) := by
      have expired : -1 < item.ttl.toInt ∧ item.ttl.toInt ≤ now - item.ctime := by omega
      simpa [expired] using search
    rw [getHandler_of_not_found plain hdb missing, if_neg through]

theorem getHandler_of_unbound (unbound : trieNodeSearch db.data.root key.bytes = none) :
    getHandler s c now later header key = some (s, ackReplies NOK) :=
  getHandler_of_not_found plain hdb (databaseSearch_of_unbound unbound now)

end Plain

theorem getHandler_of_bound_between_reads :
    ∃ s', getHandler ⟨⟨[some ⟨5, ⟨[49], by decide⟩, 0, 0⟩]⟩,
        [⟨db0, ⟨some trieNodeDestructor, ⟨0, .node 97 1 .nil .nil ⟨97, .nil, some 0⟩, none⟩, 1⟩⟩],
        vectorNew, hashtableNew, 1⟩ ⟨0⟩ 4 5 0x20 ⟨[97], by decide⟩ = some (s', ackReplies NOK) ∧
      (s'.database 0).map (fun db => (trieFind db.data ⟨[97], by decide⟩).1) = some false ∧
      s'.keyspaceSize = 0 :=
  ⟨_, (getHandler_of_bound (show headerPrefix 0x20 = false by decide) rfl rfl rfl).trans rfl, rfl, rfl⟩

/-- A key put with TTL 5 at time 0 and read at time 10 gets NOK and stays
bound: `database_search` hides it, so the lazy removal never runs. -/
theorem getHandler_keeps_expired_key :
    ∃ s₁ s₂, (startServer.bind fun s => putHandler s ⟨0⟩ 0 0x10 5 ⟨[97], by decide⟩ ⟨[49], by decide⟩) =
        some (s₁, ackReplies OK) ∧
      getHandler s₁ ⟨0⟩ 10 10 0x20 ⟨[97], by decide⟩ = some (s₂, ackReplies NOK) ∧
      (s₂.database 0).map (fun db => (trieFind db.data ⟨[97], by decide⟩).1) = some true :=
  ⟨_, _, rfl, rfl, rfl⟩

/-- On the server as it starts, a prefix GET of `"a"` fails instead of
answering NOK. -/
theorem getHandler_prefix_crashes_on_fresh_server :
    (startServer.bind fun s => getHandler s ⟨0⟩ 0 0 0x28 ⟨[97], by decide⟩) = none := rfl

end TrieDB
