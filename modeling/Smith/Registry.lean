import Smith.Types

set_option autoImplicit false

namespace Smith
open FiniteMaps Std

/-- How long before a node is considered dead: thirty seconds. -/
def heartbeatTimeout : ℤ := 30 * 10 ^ 9

/-- The known worker nodes. Only `register` and `heartbeat` write entries, and
    both store a node under its own id. -/
structure Registry where
  nodes : GoMap Node
  keyed : ∀ (id : String) (n : Node), nodes[id]? = some n → n.id = id

namespace Registry

def new : Registry := ⟨∅, by simp⟩

def register (g : Registry) (n : Node) (now : ℤ) : Registry where
  nodes := g.nodes.insert n.id { n with lastHeartbeat := now }
  keyed id m h := by
    rw [lookup_insert] at h
    split_ifs at h with hid
    · rw [← hid, ← Option.some.inj h]
    · exact g.keyed id m h

def heartbeat (g : Registry) (id : String) (now : ℤ) : Except String Registry :=
  match h : g.nodes[id]? with
  | none => .error s!"node {id} not registered"
  | some n => .ok {
      nodes := g.nodes.insert id { n with lastHeartbeat := now }
      keyed := by
        intro a m hm
        rw [lookup_insert] at hm
        split_ifs at hm with ha
        · rw [← ha, ← Option.some.inj hm]
          exact g.keyed id n h
        · exact g.keyed a m hm }

def get (g : Registry) (id : String) : Option Node := g.nodes[id]?

def list (g : Registry) : List Node := g.nodes.toList.map Prod.snd

def alive (g : Registry) (now : ℤ) : List Node :=
  let cutoff := now - heartbeatTimeout
  g.list.filter fun n => cutoff < n.lastHeartbeat

def dead (g : Registry) (now : ℤ) : List Node :=
  let cutoff := now - heartbeatTimeout
  g.list.filter fun n => !(cutoff < n.lastHeartbeat)

def remove (g : Registry) (id : String) : Registry where
  nodes := g.nodes.erase id
  keyed a n h := by
    rw [lookup_erase] at h
    split_ifs at h
    exact g.keyed a n h

theorem mem_list (g : Registry) (n : Node) : n ∈ g.list ↔ g.get n.id = some n := by
  simp only [list, List.mem_map, Prod.exists, exists_eq_right,
    ExtTreeMap.mem_toList_iff_getElem?_eq_some]
  constructor
  · rintro ⟨id, h⟩
    have hid := g.keyed id n h
    rw [get, hid]
    exact h
  · intro h
    exact ⟨n.id, h⟩

theorem mem_alive (g : Registry) (now : ℤ) (n : Node) :
    n ∈ g.alive now ↔ g.get n.id = some n ∧ now - heartbeatTimeout < n.lastHeartbeat := by
  simp [alive, List.mem_filter, mem_list]

theorem mem_dead (g : Registry) (now : ℤ) (n : Node) :
    n ∈ g.dead now ↔ g.get n.id = some n ∧ n.lastHeartbeat ≤ now - heartbeatTimeout := by
  simp [dead, List.mem_filter, mem_list]

theorem get_id {g : Registry} {id : String} {n : Node} (h : g.get id = some n) : n.id = id :=
  g.keyed id n h

theorem get_register (g : Registry) (n : Node) (now : ℤ) (id : String) :
    (g.register n now).get id =
      if n.id = id then some { n with lastHeartbeat := now } else g.get id :=
  lookup_insert _ _ _ _

theorem get_remove (g : Registry) (id a : String) :
    (g.remove id).get a = if id = a then none else g.get a :=
  lookup_erase _ _ _

theorem heartbeat_known {g : Registry} {id : String} {n : Node} (h : g.get id = some n)
    (now : ℤ) : ∃ g', g.heartbeat id now = .ok g' ∧
      ∀ a, g'.get a = if id = a then some { n with lastHeartbeat := now } else g.get a := by
  unfold heartbeat
  split
  · rename_i hn
    rw [get, hn] at h
    exact absurd h (Option.some_ne_none n).symm
  · rename_i m hm
    have he : m = n := Option.some.inj (hm.symm.trans h)
    subst he
    exact ⟨_, rfl, fun a => lookup_insert _ _ _ _⟩

theorem heartbeat_unknown {g : Registry} {id : String} (h : g.get id = none) (now : ℤ) :
    g.heartbeat id now = .error s!"node {id} not registered" := by
  unfold heartbeat
  split
  · rfl
  · rename_i m hm
    rw [get, hm] at h
    exact absurd h (Option.some_ne_none m)

end Registry
end Smith
