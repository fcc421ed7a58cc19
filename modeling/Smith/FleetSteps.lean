import Smith.AgentMembership

set_option autoImplicit false

/-!
# What an event can do to the agents and the control plane

One event changes the process of one agent, or makes one step of one handler. The two
inversions below say what is left of a process, of the control plane and of the calls, and
the invariants of whole runs are read off them.
-/
namespace Smith
open FiniteMaps RemoteCalls SubnetAllocator

namespace Fleet
variable {f g : Fleet} {e : Event} {id : String}

/-- What an event can make of the process of an agent. -/
inductive Move (f : Fleet) (e : Event) (id : String) (calls : List (Flight Ask Reply)) :
    Process → Prop where
  | stay (unread : ∀ k ask reply, e = .receive k → f.calls[k]? = some (.answer ask reply) →
      (f.agent id).awaits id ≠ some (k, ask)) : Move f e id calls (f.agent id)
  | stop : Move f e id calls .stopped
  | ask (host : Host) (backoff : ℕ)
      (sent : calls[f.calls.length]? = some (.request (.register (host.node id)))) :
      Move f e id calls (.registering host f.calls.length backoff)
  | back (host : Host) (k backoff : ℕ) (was : f.agent id = .registering host k backoff) :
      Move f e id calls (.backingOff host backoff)
  | start (host : Host) (k backoff : ℕ) (ask : Ask) (reply : Reply) (cfg : NetworkConfig)
      (was : f.agent id = .registering host k backoff)
      (answer : f.calls[k]? = some (.answer ask reply)) (ok : register (some reply) = .ok cfg) :
      Move f e id calls (.running ⟨host, cfg, .idle, []⟩)
  | beat (r : Running) (was : f.agent id = .running r) (hbeat : r.beat = .idle)
      (sent : calls[f.calls.length]? = some (.request (.heartbeat id))) :
      Move f e id calls (.running { r with beat := .heartbeat f.calls.length })
  | again (r : Running) (k : ℕ) (was : f.agent id = .running r) (hbeat : r.beat = .heartbeat k)
      (sent : calls[f.calls.length]? = some (.request (.register (r.host.node id)))) :
      Move f e id calls (.running { r with beat := .reRegister f.calls.length })
  | rest (r : Running) (k : ℕ) (was : f.agent id = .running r) (hbeat : r.beat = .heartbeat k) :
      Move f e id calls (.running { r with beat := .idle })
  | told (r : Running) (k : ℕ) (ask : Ask) (reply : Reply) (was : f.agent id = .running r)
      (hbeat : r.beat = .reRegister k) (answer : f.calls[k]? = some (.answer ask reply)) :
      Move f e id calls (.running (r.reRegister (register (some reply))))
  | lost (r : Running) (k : ℕ) (was : f.agent id = .running r) (hbeat : r.beat = .reRegister k)
      (gaveUp : e = .agent id .giveUp) :
      Move f e id calls (.running { r with beat := .idle })

theorem awaits_running (r : Running) (id : String) : (Process.running r).awaits id =
    match r.beat with
    | .idle => none
    | .heartbeat k => some (k, .heartbeat id)
    | .reRegister k => some (k, .register (r.host.node id)) := by
  obtain ⟨host, netCfg, beat, warnings⟩ := r
  cases beat <;> rfl

theorem sender_of_awaits {p : Process} {k : ℕ} {ask : Ask} (h : p.awaits id = some (k, ask)) :
    ask.sender = some id := by
  unfold Process.awaits at h
  split at h
  · obtain ⟨-, rfl⟩ := Prod.mk.inj (Option.some.inj h)
    rfl
  · obtain ⟨-, rfl⟩ := Prod.mk.inj (Option.some.inj h)
    rfl
  · obtain ⟨-, rfl⟩ := Prod.mk.inj (Option.some.inj h)
    rfl
  · exact absurd h (by simp)

theorem resume_other {reply : Option Reply} {j : String} (h : id ≠ j) :
    (g.resume j reply).agent id = g.agent id := by
  unfold resume
  split
  any_goals rfl
  · split <;> exact Function.update_of_ne h _ _
  · split
    · rfl
    · split <;> exact Function.update_of_ne h _ _
    · exact Function.update_of_ne h _ _

/-- A call returns with the answer that the agent waits for, or with none. -/
theorem resume_move {reply : Option Reply} (hagent : g.agent = f.agent)
    (hlen : g.calls.length = f.calls.length) (hnone : reply = none → e = .agent id .giveUp)
    (hsome : ∀ b, reply = some b → ∃ k ask, ((f.agent id).awaits id).map Prod.fst = some k ∧
      f.calls[k]? = some (.answer ask b)) :
    Move f e id (g.resume id reply).calls ((g.resume id reply).agent id) := by
  unfold resume
  rw [hagent]
  cases hp : f.agent id with
  | stopped => exact hagent ▸ .stay fun _ _ _ _ _ => by simp [hp, Process.awaits]
  | backingOff host backoff => exact hagent ▸ .stay fun _ _ _ _ _ => by simp [hp, Process.awaits]
  | registering host k backoff =>
    cases hr : register reply with
    | error text =>
      simp only [become, Function.update_self]
      exact .back host k backoff hp
    | ok cfg =>
      cases reply with
      | none => simp [register] at hr
      | some b =>
        obtain ⟨k', ask, hk, hanswer⟩ := hsome b rfl
        rw [hp] at hk
        obtain rfl : k = k' := Option.some.inj hk
        simp only [become, Function.update_self]
        exact .start host k backoff ask b cfg hp hanswer hr
  | running r =>
    cases hb : r.beat with
    | idle =>
      simp only [hb]
      exact hagent ▸ .stay fun _ _ _ _ _ => by simp [hp, awaits_running, hb]
    | heartbeat k =>
      simp only [hb]
      split
      · have hsent := getElem?_sent g.calls (.request (.register (r.host.node id)))
        simp only [call, Function.update_self, hlen] at hsent ⊢
        exact .again r k hp hb hsent
      · simp only [become, Function.update_self]
        exact .rest r k hp hb
    | reRegister k =>
      simp only [hb, become, Function.update_self]
      cases reply with
      | none => exact .lost r k hp hb (hnone rfl)
      | some b =>
        obtain ⟨k', ask, hk, hanswer⟩ := hsome b rfl
        obtain ⟨host, netCfg, beat, warnings⟩ := r
        obtain rfl : beat = .reRegister k := hb
        rw [hp] at hk
        obtain rfl : k = k' := Option.some.inj hk
        exact .told _ k ask b hp rfl hanswer

theorem agentStep_other {j : String} (h : id ≠ j) (a : AgentEvent) :
    (f.agentStep j a).agent id = f.agent id := by
  cases a with
  | boot _ | tick | elapse =>
    simp only [agentStep]
    split
    · exact Function.update_of_ne h _ _
    · rfl
  | giveUp => exact resume_other h
  | stop => exact Function.update_of_ne h _ _

theorem agentStep_move (a : AgentEvent) :
    Move f (.agent id a) id (f.agentStep id a).calls ((f.agentStep id a).agent id) := by
  have hsent (ask : Ask) : (f.calls ++ [.request ask])[f.calls.length]? = some (.request ask) :=
    getElem?_sent f.calls _
  cases a with
  | boot host =>
    simp only [agentStep]
    split
    · simp only [call, Function.update_self]
      exact .ask host 1 (hsent _)
    · exact .stay nofun
  | tick =>
    simp only [agentStep]
    split
    · rename_i hp
      simp only [call, Function.update_self]
      exact .beat _ hp rfl (hsent _)
    · exact .stay nofun
  | elapse =>
    simp only [agentStep]
    split
    · simp only [call, Function.update_self]
      exact .ask _ _ (hsent _)
    · exact .stay nofun
  | giveUp => exact resume_move rfl rfl (fun _ => rfl) nofun
  | stop =>
    simp only [agentStep, become, Function.update_self]
    exact .stop

theorem receive_move (k : ℕ) :
    Move f (.receive k) id (f.receive k).calls ((f.receive k).agent id) := by
  unfold receive
  split
  · rename_i ask reply hanswer
    simp only
    split
    · rename_i j hj
      split_ifs with hk
      · by_cases hid : id = j
        · subst hid
          refine resume_move rfl (List.length_set ..) nofun fun b hb => ?_
          exact ⟨k, ask, hk, Option.some.inj hb ▸ hanswer⟩
        · rw [resume_other hid]
          refine .stay fun k' ask' reply' he hk' hawaits => ?_
          cases he
          cases hanswer.symm.trans hk'
          exact hid (Option.some.inj ((sender_of_awaits hawaits).symm.trans hj))
      · refine .stay fun k' ask' reply' he hk' hawaits => ?_
        cases he
        cases hanswer.symm.trans hk'
        obtain rfl := Option.some.inj ((sender_of_awaits hawaits).symm.trans hj)
        exact hk (by rw [hawaits]; rfl)
    · rename_i hj
      refine .stay fun k' ask' reply' he hk' hawaits => ?_
      cases he
      cases hanswer.symm.trans hk'
      exact absurd ((sender_of_awaits hawaits).symm.trans hj) (by simp)
  · rename_i hnone
    refine .stay fun k' ask' reply' he hk' => ?_
    cases he
    exact absurd hk' (hnone ask' reply')

theorem accept_agent (k : ℕ) (now : ℤ) : (f.accept k now).agent = f.agent := by
  unfold accept
  split
  any_goals rfl
  split_ifs <;> rfl

theorem finish_agent (k : ℕ) (db : Outage) : (f.finish k db).agent = f.agent := by
  unfold finish
  split <;> rfl

theorem restart_agent : f.restart.agent = f.agent := by
  unfold restart
  split
  · rfl
  · split <;> rfl

theorem serverStep_agent (a : ServerEvent) : (f.serverStep a).agent = f.agent := by
  cases a with
  | accept k now => exact accept_agent k now
  | finish k db => exact finish_agent k db
  | evict id => rfl
  | restart => exact restart_agent

theorem step_move (f : Fleet) (e : Event) (id : String) :
    Move f e id (f.step e).calls ((f.step e).agent id) := by
  cases e with
  | agent j a =>
    by_cases hid : id = j
    · subst hid
      exact agentStep_move a
    · rw [step, agentStep_other hid]
      exact .stay nofun
  | receive k => exact receive_move k
  | decommission j => exact .stay nofun
  | server a =>
    rw [step, serverStep_agent]
    exact .stay nofun

/-- At most one request is sent. -/
def Sends (cs cs' : List (Flight Ask Reply)) : Prop := cs' = cs ∨ ∃ a, cs' = cs ++ [.request a]

/-- What an event can make of the control plane and of the calls. -/
inductive Traffic (f : Fleet) : Event → Membership → List (Flight Ask Reply) → Prop where
  | quiet (e : Event) (cs : List (Flight Ask Reply)) (sends : Sends f.calls cs) :
      Traffic f e f.server cs
  | read (k : ℕ) (ask : Ask) (reply : Reply) (cs : List (Flight Ask Reply))
      (was : f.calls[k]? = some (.answer ask reply)) (sends : Sends (f.calls.set k (.returned ask)) cs) :
      Traffic f (.receive k) f.server cs
  | register (k : ℕ) (now : ℤ) (node : Node)
      (was : f.calls[k]? = some (.request (.register node))) :
      Traffic f (.server (.accept k now))
        { f.server with registry := f.server.registry.register node now }
        (f.calls.set k (.handling (.register node)))
  | heartbeat (k : ℕ) (now : ℤ) (id : String)
      (was : f.calls[k]? = some (.request (.heartbeat id))) :
      Traffic f (.server (.accept k now)) (f.server.heartbeat now id).1
        (f.calls.set k (.answer (.heartbeat id) (.heard (f.server.heartbeat now id).2)))
  | refuse (k : ℕ) (now : ℤ) (was : f.calls[k]? = some (.request (.remove ""))) :
      Traffic f (.server (.accept k now)) f.server
        (f.calls.set k (.answer (.remove "") (.removed (.error 400 "missing id"))))
  | remove (k : ℕ) (now : ℤ) (id : String) (was : f.calls[k]? = some (.request (.remove id))) :
      Traffic f (.server (.accept k now))
        { f.server with registry := f.server.registry.remove id }
        (f.calls.set k (.handling (.remove id)))
  | allocate (k : ℕ) (db : Outage) (node : Node)
      (was : f.calls[k]? = some (.handling (.register node))) :
      Traffic f (.server (.finish k db)) (f.server.allocateFor db node).1
        (f.calls.set k (.answer (.register node) (.registered (f.server.allocateFor db node).2)))
  | release (k : ℕ) (db : Outage) (id : String)
      (was : f.calls[k]? = some (.handling (.remove id))) :
      Traffic f (.server (.finish k db)) (f.server.releaseOf db id).1
        (f.calls.set k (.answer (.remove id) (.removed (f.server.releaseOf db id).2)))
  | evict (id : String) :
      Traffic f (.server (.evict id)) { f.server with
        registry := f.server.registry.remove id
        scheduler := (f.server.scheduler.reassignNode id).1 } f.calls
  | restart : Traffic f (.server .restart) ⟨.new, f.server.allocator, .new⟩ f.calls

theorem resume_traffic (g : Fleet) (id : String) (reply : Option Reply) :
    (g.resume id reply).server = g.server ∧ Sends g.calls (g.resume id reply).calls := by
  unfold resume
  split
  any_goals exact ⟨rfl, .inl rfl⟩
  · split <;> exact ⟨rfl, .inl rfl⟩
  · split
    · exact ⟨rfl, .inl rfl⟩
    · split
      · exact ⟨rfl, .inr ⟨_, rfl⟩⟩
      · exact ⟨rfl, .inl rfl⟩
    · exact ⟨rfl, .inl rfl⟩

theorem agentStep_traffic (f : Fleet) (id : String) (a : AgentEvent) :
    (f.agentStep id a).server = f.server ∧ Sends f.calls (f.agentStep id a).calls := by
  cases a with
  | boot _ | tick | elapse =>
    simp only [agentStep]
    split
    · exact ⟨rfl, .inr ⟨_, rfl⟩⟩
    · exact ⟨rfl, .inl rfl⟩
  | giveUp => exact resume_traffic f id none
  | stop => exact ⟨rfl, .inl rfl⟩

theorem receive_traffic (f : Fleet) (k : ℕ) :
    Traffic f (.receive k) (f.receive k).server (f.receive k).calls := by
  unfold receive
  split
  · rename_i ask reply was
    simp only
    split
    · rename_i id hid
      split_ifs
      · obtain ⟨hserver, hsends⟩ :=
          resume_traffic { f with calls := f.calls.set k (.returned ask) } id (some reply)
        rw [hserver]
        exact .read k ask reply _ was hsends
      · exact .read k ask reply _ was (.inl rfl)
    · exact .read k ask reply _ was (.inl rfl)
  · exact .quiet _ _ (.inl rfl)

theorem accept_traffic (f : Fleet) (k : ℕ) (now : ℤ) :
    Traffic f (.server (.accept k now)) (f.accept k now).server (f.accept k now).calls := by
  unfold accept
  split
  · exact .register k now _ ‹_›
  · exact .heartbeat k now _ ‹_›
  · rename_i id was
    split_ifs with hid
    · subst hid
      exact .refuse k now was
    · exact .remove k now id was
  · exact .quiet _ _ (.inl rfl)

theorem finish_traffic (f : Fleet) (k : ℕ) (db : Outage) :
    Traffic f (.server (.finish k db)) (f.finish k db).server (f.finish k db).calls := by
  unfold finish
  split
  · exact .allocate k db _ ‹_›
  · exact .release k db _ ‹_›
  · exact .quiet _ _ (.inl rfl)

theorem step_traffic (h : f.server.Online) (e : Event) :
    Traffic f e (f.step e).server (f.step e).calls := by
  cases e with
  | agent id a =>
    obtain ⟨hserver, hsends⟩ := agentStep_traffic f id a
    rw [step, hserver]
    exact .quiet _ _ hsends
  | receive k => exact receive_traffic f k
  | decommission id => exact .quiet _ _ (.inr ⟨_, rfl⟩)
  | server a =>
    cases a with
    | accept k now => exact accept_traffic f k now
    | finish k db => exact finish_traffic f k db
    | evict id => exact .evict id
    | restart =>
      obtain ⟨a, ha, hopen⟩ := h
      simp only [step, serverStep, Fleet.restart, ha, new_of_parse hopen.parsed]
      exact ha ▸ .restart

section Consequences
variable {st : Membership} {cs : List (Flight Ask Reply)} {cfg : NetworkConfig}

theorem Sends.extends {cs' : List (Flight Ask Reply)} (h : Sends cs cs') : Extends cs cs' := by
  obtain rfl | ⟨a, rfl⟩ := h
  · exact .refl _
  · exact .send _ a

theorem Traffic.extends (h : Traffic f e st cs) : Extends f.calls cs := by
  cases h with
  | quiet _ _ sends => exact sends.extends
  | read k ask _ _ was sends =>
    have hread : Extends f.calls (f.calls.set k (.returned ask)) := .advance was rfl
    exact hread.trans sends.extends
  | evict _ | restart => exact .refl _
  | register _ _ _ was | heartbeat _ _ _ was | refuse _ _ was | remove _ _ _ was
  | allocate _ _ _ was | release _ _ _ was => exact .advance was rfl

theorem Traffic.online (h : Traffic f e st cs) (hon : f.server.Online) : st.Online := by
  cases h with
  | quiet | read | register | refuse | remove | evict | restart => exact hon
  | heartbeat k now id =>
    obtain ⟨a, ha, hopen⟩ := hon
    exact ⟨a, (Membership.heartbeat_allocator now f.server id).trans ha, hopen⟩
  | allocate k db node => exact (hon.allocateFor db node).1
  | release k db id => exact (hon.releaseOf db id).1

theorem Traffic.holds (h : Traffic f e st cs) (hon : f.server.Online)
    (hkept : ∀ k db, e = .server (.finish k db) → f.calls[k]? ≠ some (.handling (.remove id)))
    (hold : f.server.Holds id cfg) : st.Holds id cfg := by
  cases h with
  | quiet | read | register | refuse | remove | evict | restart => exact hold
  | heartbeat k now j =>
    obtain ⟨a, row, ha, hrow⟩ := hold
    exact ⟨a, row, (Membership.heartbeat_allocator now f.server j).trans ha, hrow⟩
  | allocate k db node => exact (hon.allocateFor db node).2.2.1 id cfg hold
  | release k db j was =>
    have hne : id ≠ j := by
      rintro rfl
      exact hkept k db rfl was
    exact (hon.releaseOf db j).2.2 id cfg hne hold

/-- A row comes into the table only with an answer that gives it to its node. -/
theorem Traffic.holds_before (h : Traffic f e st cs) (hon : f.server.Online)
    (hold : st.Holds id cfg) : f.server.Holds id cfg ∨ ∃ k db node,
      e = .server (.finish k db) ∧ f.calls[k]? = some (.handling (.register node)) ∧ node.id = id ∧
      ∃ reply, cs[k]? = some (.answer (.register node) reply) ∧
        Fleet.register (some reply) = .ok cfg := by
  cases h with
  | quiet | read | register | refuse | remove | evict | restart => exact .inl hold
  | heartbeat k now j =>
    obtain ⟨a, row, ha, hrow⟩ := hold
    exact .inl ⟨a, row, (Membership.heartbeat_allocator now f.server j).symm.trans ha, hrow⟩
  | release k db j => exact .inl (hon.holds_of_releaseOf hold)
  | allocate k db node was =>
    obtain hbefore | ⟨hid, hok⟩ := hon.holds_of_allocateFor hold
    · exact .inl hbefore
    · exact .inr ⟨k, db, node, rfl, was, hid, _, getElem?_advance was, hok⟩

theorem Sends.answer {cs' : List (Flight Ask Reply)} (h : Sends cs cs') {k : ℕ} {ask : Ask}
    {reply : Reply} (hk : cs'[k]? = some (.answer ask reply)) :
    cs[k]? = some (.answer ask reply) := by
  obtain rfl | ⟨a, rfl⟩ := h
  · exact hk
  · rw [List.getElem?_append] at hk
    split_ifs at hk
    · exact hk
    · simp [List.getElem?_singleton] at hk

/-- The answers that an agent takes for a registration are those of the second part of the
    handler. -/
theorem Traffic.answer (h : Traffic f e st cs) {k : ℕ} {ask : Ask} {reply : Reply}
    (hk : cs[k]? = some (.answer ask reply)) (hok : Fleet.register (some reply) = .ok cfg) :
    f.calls[k]? = some (.answer ask reply) ∨ ∃ db node, e = .server (.finish k db) ∧
      f.calls[k]? = some (.handling (.register node)) ∧ ask = .register node ∧
      reply = .registered (f.server.allocateFor db node).2 ∧ st = (f.server.allocateFor db node).1 := by
  have hset (j : ℕ) (x : Flight Ask Reply) (h : (f.calls.set j x)[k]? = some (.answer ask reply)) :
      j = k ∧ x = .answer ask reply ∨ f.calls[k]? = some (.answer ask reply) := by
    rw [List.getElem?_set] at h
    split_ifs at h with hj hlen
    · exact .inl ⟨hj, Option.some.inj h⟩
    · exact .inr h
  cases h with
  | quiet _ _ sends => exact .inl (sends.answer hk)
  | read j _ _ _ _ sends =>
    obtain ⟨-, hx⟩ | h := hset j _ (sends.answer hk)
    · exact absurd hx (by simp)
    · exact .inl h
  | register j _ _ _ | remove j _ _ _ =>
    obtain ⟨-, hx⟩ | h := hset j _ hk
    · exact absurd hx (by simp)
    · exact .inl h
  | heartbeat j _ _ _ | refuse j _ _ | release j _ _ _ =>
    obtain ⟨-, hx⟩ | h := hset j _ hk
    · obtain ⟨-, rfl⟩ := Flight.answer.inj hx
      exact absurd hok (by simp [Fleet.register])
    · exact .inl h
  | allocate j db node was =>
    obtain ⟨rfl, hx⟩ | h := hset j _ hk
    · obtain ⟨rfl, rfl⟩ := Flight.answer.inj hx
      exact .inr ⟨db, node, rfl, was, rfl, rfl, rfl⟩
    · exact .inl h
  | evict _ | restart => exact .inl hk

/-- An answer stays until it is read. -/
theorem Traffic.answer_kept (h : Traffic f e st cs) {k : ℕ} {ask : Ask} {reply : Reply}
    (hk : f.calls[k]? = some (.answer ask reply)) :
    e = .receive k ∨ cs[k]? = some (.answer ask reply) := by
  have hset (j : ℕ) (x y : Flight Ask Reply) (hj : f.calls[j]? = some x) (hx : x ≠ .answer ask reply) :
      (f.calls.set j y)[k]? = some (.answer ask reply) := by
    have hne : j ≠ k := by
      rintro rfl
      exact hx (Option.some.inj (hj.symm.trans hk))
    rw [List.getElem?_set_ne hne, hk]
  cases h with
  | quiet _ _ sends =>
    obtain rfl | ⟨a, rfl⟩ := sends
    · exact .inr hk
    · exact .inr (getElem?_send hk a)
  | read j ask' _ _ was sends =>
    by_cases hj : j = k
    · exact .inl (hj ▸ rfl)
    · have hread : (f.calls.set j (.returned ask'))[k]? = some (.answer ask reply) :=
        (List.getElem?_set_ne hj).trans hk
      obtain rfl | ⟨a, rfl⟩ := sends
      · exact .inr hread
      · exact .inr (getElem?_send hread a)
  | register j _ _ was | heartbeat j _ _ was | refuse j _ was | remove j _ _ was
  | allocate j _ _ was | release j _ _ was => exact .inr (hset j _ _ was (by simp))
  | evict _ | restart => exact .inr hk

end Consequences

end Fleet
end Smith
