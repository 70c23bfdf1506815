import SlidingWindow.Addresses
import SlidingWindow.Completion
import SlidingWindow.Library.Filtering

/-! Any number of clients at once. Each process has a port of its own; the main port forks a
child for everybody, and a child answers whoever wrote to it. Seen from one client, the
others are not there: it goes with its children through a session of its own. -/
namespace SlidingWindow.Concurrency

open Library Filtering Completion

structure Ports where
  client : ℕ → Peer
  child : ℕ → Peer
  client_injective : Function.Injective client
  child_injective : Function.Injective child
  apart : ∀ i j, client i ≠ child j
  client_ne_main : ∀ i, client i ≠ .main
  child_ne_main : ∀ j, child j ≠ .main

theorem evens_injective : Function.Injective fun i : ℕ => Peer.child (2 * i) := by
  intro i j h
  have := Peer.child.inj h
  omega

theorem odds_injective : Function.Injective fun j : ℕ => Peer.child (2 * j + 1) := by
  intro i j h
  have := Peer.child.inj h
  omega

theorem evens_ne_odds (i j : ℕ) : Peer.child (2 * i) ≠ .child (2 * j + 1) := by
  intro h
  have := Peer.child.inj h
  omega

theorem port_ne_main (index : ℕ) : Peer.child index ≠ .main := Peer.noConfusion

def Ports.alternating : Ports where
  client i := .child (2 * i)
  child j := .child (2 * j + 1)
  client_injective := evens_injective
  child_injective := odds_injective
  apart := evens_ne_odds
  client_ne_main i := port_ne_main (2 * i)
  child_ne_main j := port_ne_main (2 * j + 1)

/-- Everybody on the network but the main port, which keeps no state. -/
structure Site where
  clients : List Client
  children : List Server

inductive Label where
  | client (index : ℕ) (choice : World.Choice)
  | child (index : ℕ) (choice : World.Choice)
  /-- The main port reads a datagram. -/
  | main (choice : World.Choice)
  deriving DecidableEq

namespace Site

def posted (address : ℕ → Peer) (peer : Peer) (traces : List Trace) : List (Peer × Datagram) :=
  traces.zipIdx.flatMap fun entry => (World.sentTo peer entry.1).map (address entry.2, ·)

def inbox (ports : Ports) (w : Site) (peer : Peer) : List (Peer × Datagram) :=
  posted ports.client peer (w.clients.map (·.trace)) ++
    posted ports.child peer (w.children.map (·.trace))

def fork (w : Site) (input : Input) : Site :=
  { w with children := w.children ++ (Server.forkedFor input).toList }

def step (ports : Ports) (w : Site) : Label → Site
  | .client index choice =>
      { w with
        clients := w.clients.modify index
          (·.step (World.resolve (w.inbox ports (ports.client index)) choice)) }
  | .child index choice =>
      { w with
        children := w.children.modify index
          (·.step (World.resolve (w.inbox ports (ports.child index)) choice)) }
  | .main choice => w.fork (World.resolve (w.inbox ports .main) choice)

def start (uploads : List Upload) : Site := ⟨uploads.map fun u => (session u).client, []⟩

def owners (w : Site) : List Peer := w.children.map (·.client)

variable {ports : Ports} {w : Site} {peer src : Peer} {datagram : Datagram}

theorem mem_posted {address : ℕ → Peer} {traces : List Trace} :
    (src, datagram) ∈ posted address peer traces ↔
      ∃ index trace, traces[index]? = some trace ∧ src = address index ∧
        .sent peer datagram ∈ trace := by
  simp only [posted, List.mem_flatMap, List.mem_map, Prod.mk.injEq, World.mem_sentTo]
  constructor
  · rintro ⟨⟨trace, index⟩, hentry, found, hsent, rfl, rfl⟩
    exact ⟨index, trace, List.mem_zipIdx_iff_getElem?.mp hentry, rfl, hsent⟩
  · rintro ⟨index, trace, htrace, rfl, hsent⟩
    exact ⟨(trace, index), List.mem_zipIdx_iff_getElem?.mpr htrace, datagram, hsent, rfl, rfl⟩

theorem mem_inbox :
    (src, datagram) ∈ w.inbox ports peer ↔
      (∃ i c, w.clients[i]? = some c ∧ src = ports.client i ∧ .sent peer datagram ∈ c.trace) ∨
        ∃ j s, w.children[j]? = some s ∧ src = ports.child j ∧
          .sent peer datagram ∈ s.trace := by
  simp only [inbox, List.mem_append, mem_posted, List.getElem?_map, Option.map_eq_some_iff]
  constructor
  · rintro (⟨i, trace, ⟨c, hc, rfl⟩, hsrc, hsent⟩ | ⟨j, trace, ⟨s, hs, rfl⟩, hsrc, hsent⟩)
    · exact .inl ⟨i, c, hc, hsrc, hsent⟩
    · exact .inr ⟨j, s, hs, hsrc, hsent⟩
  · rintro (⟨i, c, hc, hsrc, hsent⟩ | ⟨j, s, hs, hsrc, hsent⟩)
    · exact .inl ⟨i, _, ⟨c, hc, rfl⟩, hsrc, hsent⟩
    · exact .inr ⟨j, _, ⟨s, hs, rfl⟩, hsrc, hsent⟩

theorem exists_sender {choice : World.Choice}
    (h : World.resolve (w.inbox ports peer) choice = .datagram src datagram) :
    ∃ original, (src, original) ∈ w.inbox ports peer := by
  have hoffered := World.offered_resolve (w.inbox ports peer) choice
  rw [h] at hoffered
  rcases hoffered with hmem | ⟨-, original, hmem⟩
  · exact ⟨datagram, hmem⟩
  · exact ⟨original, hmem⟩

theorem step_main (ports : Ports) (w : Site) (choice : World.Choice) :
    w.step ports (.main choice) = w ∨ ∃ src datagram received,
      (src, datagram) ∈ w.inbox ports .main ∧ recvBuf datagram = .ok (some received) ∧
        w.step ports (.main choice) =
          { w with children := w.children ++ [Server.forked src received.packet] } := by
  have hoffered := World.offered_resolve (w.inbox ports .main) choice
  simp only [step, fork]
  rcases World.forkedFor_cases (World.resolve (w.inbox ports .main) choice) with
    hnone | ⟨src, datagram, received, hinput, haccepted, hfork⟩
  · left
    rw [hnone, Option.toList_none, List.append_nil]
  · right
    rw [hinput] at hoffered
    rcases hoffered with hmem | ⟨hcorrupt, -⟩
    · exact ⟨src, datagram, received, hmem, haccepted, by rw [hfork, Option.toList_some]⟩
    · simp [hcorrupt] at haccepted

/-- A client knows the main port and its own children, a child nobody but its client. -/
structure Separate (ports : Ports) (w : Site) : Prop where
  clients : ∀ (i : ℕ) (c : Client), w.clients[i]? = some c → ∀ peer, Mentions c.server c.trace peer →
    peer = .main ∨ ∃ j, peer = ports.child j ∧ w.owners[j]? = some (ports.client i)
  children : ∀ (j : ℕ) (s : Server), w.children[j]? = some s → ∃ i, i < w.clients.length ∧
    ∀ peer, Mentions s.client s.trace peer → peer = ports.client i

theorem Separate.client_eq (h : Separate ports w) {j : ℕ} {s : Server}
    (hs : w.children[j]? = some s) : ∃ i, i < w.clients.length ∧ s.client = ports.client i := by
  obtain ⟨i, hlt, hknows⟩ := h.children j s hs
  exact ⟨i, hlt, hknows _ (.inl rfl)⟩

theorem getElem?_owners {j : ℕ} {s : Server} (hs : w.children[j]? = some s) :
    w.owners[j]? = some s.client := by
  simp [owners, hs]

theorem Separate.reads_client (h : Separate ports w) {i : ℕ}
    (hmem : (src, datagram) ∈ w.inbox ports (ports.client i)) :
    ∃ j s, w.children[j]? = some s ∧ src = ports.child j ∧ s.client = ports.client i ∧
      .sent (ports.client i) datagram ∈ s.trace := by
  rcases mem_inbox.mp hmem with ⟨k, c, hc, -, hsent⟩ | ⟨j, s, hs, hsrc, hsent⟩
  · rcases h.clients k c hc _ (.inr ⟨datagram, hsent⟩) with hmain | ⟨j, hchild, -⟩
    · exact absurd hmain (ports.client_ne_main i)
    · exact absurd hchild (ports.apart i j)
  · obtain ⟨k, -, hknows⟩ := h.children j s hs
    have hclient := hknows _ (.inl rfl)
    rw [← hknows _ (.inr ⟨datagram, hsent⟩)] at hclient
    exact ⟨j, s, hs, hsrc, hclient, hsent⟩

theorem Separate.reads_child (h : Separate ports w) {j : ℕ}
    (hmem : (src, datagram) ∈ w.inbox ports (ports.child j)) :
    ∃ i c, w.clients[i]? = some c ∧ src = ports.client i ∧
      w.owners[j]? = some (ports.client i) ∧ .sent (ports.child j) datagram ∈ c.trace := by
  rcases mem_inbox.mp hmem with ⟨i, c, hc, hsrc, hsent⟩ | ⟨k, s, hs, -, hsent⟩
  · rcases h.clients i c hc _ (.inr ⟨datagram, hsent⟩) with hmain | ⟨k, hchild, howner⟩
    · exact absurd hmain (ports.child_ne_main j)
    · rw [← ports.child_injective hchild] at howner
      exact ⟨i, c, hc, hsrc, howner, hsent⟩
  · obtain ⟨i, -, hknows⟩ := h.children k s hs
    exact absurd (hknows _ (.inr ⟨datagram, hsent⟩)).symm (ports.apart i j)

theorem Separate.reads_main (h : Separate ports w)
    (hmem : (src, datagram) ∈ w.inbox ports .main) :
    ∃ i c, w.clients[i]? = some c ∧ src = ports.client i ∧ .sent .main datagram ∈ c.trace := by
  rcases mem_inbox.mp hmem with ⟨i, c, hc, hsrc, hsent⟩ | ⟨j, s, hs, -, hsent⟩
  · exact ⟨i, c, hc, hsrc, hsent⟩
  · obtain ⟨i, -, hknows⟩ := h.children j s hs
    exact absurd (hknows _ (.inr ⟨datagram, hsent⟩)).symm (ports.client_ne_main i)

theorem separate_start (ports : Ports) (uploads : List Upload) :
    Separate ports (start uploads) where
  clients i c hc peer hknows := by
    simp only [start, List.getElem?_map, Option.map_eq_some_iff] at hc
    obtain ⟨u, -, rfl⟩ := hc
    rcases hknows with hmain | ⟨datagram, hsent⟩
    · exact .inl hmain.symm
    · simp [session, World.start, Client.started] at hsent
  children j s hs := by simp [start] at hs

theorem Separate.child_turn (h : Separate ports w) {j : ℕ} {s : Server}
    (hs : w.children[j]? = some s) {i : ℕ}
    (hknows : ∀ peer, Mentions s.client s.trace peer → peer = ports.client i)
    (choice : World.Choice) {peer : Peer}
    (hnow : Mentions (s.step (World.resolve (w.inbox ports (ports.child j)) choice)).client
      (s.step (World.resolve (w.inbox ports (ports.child j)) choice)).trace peer) :
    peer = ports.client i := by
  rcases Server.mentions_of_step hnow with hbefore | ⟨datagram, hinput⟩
  · exact hknows peer hbefore
  · obtain ⟨original, hmem⟩ := exists_sender hinput
    obtain ⟨k, c, -, hsrc, howner, -⟩ := h.reads_child hmem
    rw [getElem?_owners hs, hknows _ (.inl rfl)] at howner
    rw [hsrc, Option.some.inj howner]

theorem Separate.owners_step (h : Separate ports w) (label : Label) :
    ∃ more, (w.step ports label).owners = w.owners ++ more := by
  cases label with
  | client index choice => exact ⟨[], (List.append_nil _).symm⟩
  | child index choice =>
      refine ⟨[], List.ext_getElem? fun j => ?_⟩
      simp only [owners, step, List.append_nil, List.getElem?_map, List.getElem?_modify]
      cases hs : w.children[j]? with
      | none => rfl
      | some s =>
          by_cases hindex : index = j
          · subst hindex
            obtain ⟨i, -, hknows⟩ := h.children index s hs
            simp [h.child_turn hs hknows choice (.inl rfl), hknows _ (.inl rfl)]
          · simp [hindex]
  | main choice =>
      rcases step_main ports w choice with hsame | ⟨src, datagram, received, -, -, hfork⟩
      · exact ⟨[], by rw [hsame, List.append_nil]⟩
      · exact ⟨[src], by simp [hfork, owners, Server.forked]⟩

theorem Separate.step (h : Separate ports w) (label : Label) :
    Separate ports (w.step ports label) := by
  obtain ⟨more, howners⟩ := h.owners_step label
  have hclients {i : ℕ} {peer : Peer} (hknown : peer = .main ∨ ∃ j, peer = ports.child j ∧
      w.owners[j]? = some (ports.client i)) : peer = .main ∨ ∃ j, peer = ports.child j ∧
      (w.step ports label).owners[j]? = some (ports.client i) := by
    refine hknown.imp_right fun ⟨j, hpeer, howner⟩ => ⟨j, hpeer, ?_⟩
    rw [howners, List.getElem?_append_left (List.getElem?_eq_some_iff.mp howner).1, howner]
  cases label with
  | client index choice =>
      refine ⟨fun i c hc peer hknows => hclients ?_, fun j s hs => ?_⟩
      · simp only [Site.step, List.getElem?_modify, Option.map_eq_map, Option.map_eq_some_iff] at hc
        obtain ⟨c, hbefore, rfl⟩ := hc
        split at hknows
        · subst index
          rcases Client.mentions_of_step hknows with hold | ⟨datagram, hinput⟩
          · exact h.clients i c hbefore peer hold
          · obtain ⟨original, hmem⟩ := exists_sender hinput
            obtain ⟨j, s, hs, hsrc, hclient, -⟩ := h.reads_client hmem
            exact .inr ⟨j, hsrc, by rw [getElem?_owners hs, hclient]⟩
        · exact h.clients i c hbefore peer hknows
      · simpa [Site.step] using h.children j s hs
  | child index choice =>
      refine ⟨fun i c hc peer hknows => hclients (h.clients i c hc peer hknows), ?_⟩
      intro j s hs
      simp only [Site.step, List.getElem?_modify, Option.map_eq_map, Option.map_eq_some_iff] at hs
      obtain ⟨s, hbefore, rfl⟩ := hs
      obtain ⟨i, hlt, hknows⟩ := h.children j s hbefore
      refine ⟨i, hlt, fun peer hnow => ?_⟩
      split at hnow
      · subst index
        exact h.child_turn hbefore hknows choice hnow
      · exact hknows peer hnow
  | main choice =>
      rcases step_main ports w choice with hsame | ⟨src, datagram, received, hmem, -, hfork⟩
      · rwa [hsame]
      · obtain ⟨k, c, hc, hsrc, -⟩ := h.reads_main hmem
        rw [hfork] at hclients ⊢
        refine ⟨fun i c hc peer hknows => hclients (h.clients i c hc peer hknows), ?_⟩
        intro j s hs
        rcases List.mem_append.mp (List.mem_of_getElem? hs) with hold | hnew
        · obtain ⟨j, hj⟩ := List.mem_iff_getElem?.mp hold
          exact h.children j s hj
        · rw [List.mem_singleton.mp hnew]
          refine ⟨k, (List.getElem?_eq_some_iff.mp hc).1, fun peer hknows => ?_⟩
          rcases hknows with hclient | ⟨datagram, hsent⟩
          · exact hclient.symm.trans hsrc
          · simp [Server.forked] at hsent

def belongs (ports : Ports) (i : ℕ) (client : Peer) : Bool := client = ports.client i

/-- In a session of its own, client `i` is `rcopy`, and its children are counted from 0. -/
structure Renames (ports : Ports) (owners : List Peer) (i : ℕ) (g : Peer → Peer) : Prop where
  client : g (ports.client i) = .rcopy
  main : g .main = .main
  child : ∀ j, owners[j]? = some (ports.client i) →
    g (ports.child j) = .child (rank (belongs ports i) owners j)

def sight (ports : Ports) (i : ℕ) (g : Peer → Peer) (c : Client) (children : List Server) :
    World :=
  ⟨c.readdress g, (children.filter fun s => belongs ports i s.client).map (Server.readdress g)⟩

theorem exists_renames (ports : Ports) (owners : List Peer) (i : ℕ) :
    ∃ g, Renames ports owners i g := by
  refine ⟨Function.extend ports.child (fun j => .child (rank (belongs ports i) owners j))
    (fun peer => if peer = .main then .main else .rcopy), ?_, ?_, fun j _ => ?_⟩
  · rw [Function.extend_apply' _ _ _ fun ⟨j, hj⟩ => ports.apart i j hj.symm]
    exact if_neg (ports.client_ne_main i)
  · rw [Function.extend_apply' _ _ _ fun ⟨j, hj⟩ => ports.child_ne_main j hj]
    exact if_pos rfl
  · exact ports.child_injective.extend_apply _ _ j

theorem Renames.of_append {owners more : List Peer} {i : ℕ} {g : Peer → Peer}
    (h : Renames ports (owners ++ more) i g) : Renames ports owners i g where
  client := h.client
  main := h.main
  child j howner := by
    have hlt := (List.getElem?_eq_some_iff.mp howner).1
    rw [h.child j (by rw [List.getElem?_append_left hlt, howner]), rank_append (Nat.le_of_lt hlt)]

section Sight

variable {i j : ℕ} {g : Peer → Peer} {c : Client} {s : Server} {input : Input}

theorem sent_readdress {trace : Trace} {dst : Peer} (h : .sent dst datagram ∈ trace) :
    .sent (g dst) datagram ∈ trace.map (Event.readdress g) :=
  List.mem_map_of_mem (f := Event.readdress g) h

theorem getElem?_sight (hs : w.children[j]? = some s) (hclient : s.client = ports.client i) :
    (sight ports i g c w.children).children[rank (belongs ports i) w.owners j]? =
      some (s.readdress g) := by
  have hfound := getElem?_filter_rank (p := fun s : Server => belongs ports i s.client) hs
    (by simp [belongs, hclient])
  rw [owners, rank_map, sight, List.getElem?_map]
  exact congrArg (Option.map (Server.readdress g)) hfound

theorem offered_readdress {inbox inbox' : List (Peer × Datagram)}
    (hinbox : ∀ src datagram, (src, datagram) ∈ inbox → (g src, datagram) ∈ inbox')
    (h : World.Offered inbox input) : World.Offered inbox' (input.readdress g) := by
  cases input with
  | silent => trivial
  | failure => trivial
  | datagram src datagram =>
      rcases h with hmem | ⟨hcorrupt, original, hmem⟩
      · exact .inl (hinbox src datagram hmem)
      · exact .inr ⟨hcorrupt, original, hinbox src original hmem⟩

theorem exists_choice {peer' : Peer}
    (hinbox : ∀ src datagram, (src, datagram) ∈ w.inbox ports peer →
      (g src, datagram) ∈ (sight ports i g c w.children).inbox peer') (choice : World.Choice) :
    ∃ choice', World.resolve ((sight ports i g c w.children).inbox peer') choice' =
      (World.resolve (w.inbox ports peer) choice).readdress g :=
  World.exists_choice (offered_readdress hinbox (World.offered_resolve _ choice))

theorem Separate.inbox_client (h : Separate ports w) (hg : Renames ports w.owners i g) :
    ∀ src datagram, (src, datagram) ∈ w.inbox ports (ports.client i) →
      (g src, datagram) ∈ (sight ports i g c w.children).inbox .rcopy := by
  intro src datagram hmem
  obtain ⟨j, s, hs, rfl, hclient, hsent⟩ := h.reads_client hmem
  rw [hg.child j (by rw [getElem?_owners hs, hclient])]
  exact World.mem_inbox.mpr
    (.inr ⟨_, _, getElem?_sight hs hclient, rfl, hg.client ▸ sent_readdress hsent⟩)

theorem Separate.inbox_child (h : Separate ports w) (hg : Renames ports w.owners i g)
    (hc : w.clients[i]? = some c) (howner : w.owners[j]? = some (ports.client i)) :
    ∀ src datagram, (src, datagram) ∈ w.inbox ports (ports.child j) →
      (g src, datagram) ∈ (sight ports i g c w.children).inbox
        (.child (rank (belongs ports i) w.owners j)) := by
  intro src datagram hmem
  obtain ⟨k, sender, hsender, rfl, hk, hsent⟩ := h.reads_child hmem
  obtain rfl := ports.client_injective (Option.some.inj (howner.symm.trans hk))
  obtain rfl := Option.some.inj (hc.symm.trans hsender)
  rw [hg.client, ← hg.child j howner]
  exact World.mem_inbox.mpr (.inl ⟨rfl, sent_readdress hsent⟩)

end Sight

/-- Client `i` goes with its children through a session of the upload `u`. -/
def Solo (ports : Ports) (u : Upload) (i : ℕ) (w : Site) : Prop :=
  ∀ g, Renames ports w.owners i g → ∃ labels c, w.clients[i]? = some c ∧
    Runs.run World.step (session u) labels = sight ports i g c w.children

section Solo

variable {u : Upload} {i : ℕ}

theorem Solo.client_step (hsep : Separate ports w) (h : Solo ports u i w) (index : ℕ)
    (choice : World.Choice) : Solo ports u i (w.step ports (.client index choice)) := by
  intro g hg
  obtain ⟨labels, c, hc, hrun⟩ := h g hg
  by_cases hindex : index = i
  · subst hindex
    obtain ⟨choice', hchoice⟩ := exists_choice (hsep.inbox_client (c := c) hg) choice
    refine ⟨labels ++ [.client choice'],
      c.step (World.resolve (w.inbox ports (ports.client index)) choice), ?_, ?_⟩
    · simp only [step, List.getElem?_modify, hc, Option.map_eq_map, Option.map_some, if_pos]
    · rw [Runs.run_append, hrun]
      simp only [Runs.run_cons, Runs.run_nil, World.step, hchoice]
      exact congrArg (World.mk · _) Client.step_readdress
  · refine ⟨labels, c, ?_, hrun⟩
    rw [step, List.getElem?_modify_ne _ _ hindex, hc]

theorem Solo.child_step (hsep : Separate ports w) (h : Solo ports u i w) (index : ℕ)
    (choice : World.Choice) : Solo ports u i (w.step ports (.child index choice)) := by
  intro g hg
  obtain ⟨more, howners⟩ := hsep.owners_step (.child index choice)
  have hbefore : Renames ports w.owners i g := Renames.of_append (howners ▸ hg)
  obtain ⟨labels, c, hc, hrun⟩ := h g hbefore
  cases hs : w.children[index]? with
  | none =>
      refine ⟨labels, c, hc, ?_⟩
      rw [hrun, step, List.modify_eq_self (List.getElem?_eq_none_iff.mp hs)]
  | some s =>
      obtain ⟨k, -, hknows⟩ := hsep.children index s hs
      have hkept : (s.step (World.resolve (w.inbox ports (ports.child index)) choice)).client =
          s.client := by
        rw [hsep.child_turn hs hknows choice (.inl rfl), hknows _ (.inl rfl)]
      by_cases hclient : s.client = ports.client i
      · have howner : w.owners[index]? = some (ports.client i) := by
          rw [getElem?_owners hs, hclient]
        obtain ⟨choice', hchoice⟩ :=
          exists_choice (hsep.inbox_child hbefore hc howner) choice
        refine ⟨labels ++ [.child (rank (belongs ports i) w.owners index) choice'], c, hc, ?_⟩
        rw [Runs.run_append, hrun]
        simp only [Runs.run_cons, Runs.run_nil, World.step, hchoice]
        simp only [sight, step]
        rw [filter_modify_of_pos hs (by simp [belongs, hclient])
          (by simp [belongs, hkept, hclient]), map_modify (Server.step · (Input.readdress g _))
            fun _ => Server.step_readdress.symm, owners, rank_map]
        rfl
      · refine ⟨labels, c, hc, ?_⟩
        rw [hrun]
        simp only [sight, step]
        rw [filter_modify_of_neg hs (by simp [belongs, hclient])
          (by simp [belongs, hkept, hclient])]

theorem Solo.main_step (hsep : Separate ports w) (h : Solo ports u i w)
    (choice : World.Choice) : Solo ports u i (w.step ports (.main choice)) := by
  intro g hg
  obtain ⟨more, howners⟩ := hsep.owners_step (.main choice)
  have hbefore : Renames ports w.owners i g := Renames.of_append (howners ▸ hg)
  obtain ⟨labels, c, hc, hrun⟩ := h g hbefore
  rcases step_main ports w choice with hsame | ⟨src, datagram, received, hmem, hrecv, hfork⟩
  · rw [hsame]
    exact ⟨labels, c, hc, hrun⟩
  · rw [hfork]
    obtain ⟨k, sender, hsender, rfl, hsent⟩ := hsep.reads_main hmem
    by_cases hown : k = i
    · subst hown
      obtain rfl := Option.some.inj (hc.symm.trans hsender)
      have hsent' : .sent .main datagram ∈ (sight ports k g c w.children).client.trace := by
        have hsent' := @sent_readdress _ g _ _ hsent
        rwa [hbefore.main] at hsent'
      obtain ⟨place, hplace⟩ := World.exists_delivery (World.mem_inbox.mpr (.inl ⟨rfl, hsent'⟩))
      refine ⟨labels ++ [.main (.deliver place)], c, hc, ?_⟩
      rw [Runs.run_append, hrun]
      simp only [Runs.run_cons, Runs.run_nil, World.step, hplace, World.fork,
        Server.forkedFor_of_accepted hrecv, Option.toList_some]
      simp [sight, belongs, Server.forked, Server.readdress, hbefore.client]
    · refine ⟨labels, c, hc, ?_⟩
      have hother : ports.client k ≠ ports.client i :=
        fun hsame => hown (ports.client_injective hsame)
      rw [hrun]
      simp [sight, belongs, Server.forked, hother]

end Solo

theorem solo_start (ports : Ports) {uploads : List Upload} {u : Upload} {i : ℕ}
    (hu : uploads[i]? = some u) : Solo ports u i (start uploads) := by
  intro g hg
  refine ⟨[], (session u).client, by simp [start, hu], ?_⟩
  simp [sight, start, session, World.start, Client.readdress, Client.started, hg.main]

structure Apart (ports : Ports) (uploads : List Upload) (w : Site) : Prop where
  separate : Separate ports w
  length : w.clients.length = uploads.length
  solo : ∀ i u, uploads[i]? = some u → Solo ports u i w

theorem apart_run (ports : Ports) (uploads : List Upload) (labels : List Label) :
    Apart ports uploads (Runs.run (step ports) (start uploads) labels) := by
  refine Runs.run_invariant (Apart ports uploads) (fun w label h _ => ?_)
    ⟨separate_start ports uploads, by simp [start], fun i u hu => solo_start ports hu⟩
    Runs.along_true
  refine ⟨h.separate.step label, ?_, fun i u hu => ?_⟩
  · cases label with
    | client index choice => simpa [step] using h.length
    | child index choice => exact h.length
    | main choice =>
        rcases step_main ports w choice with hsame | ⟨src, datagram, received, -, -, hfork⟩
        · rw [hsame]
          exact h.length
        · rw [hfork]
          exact h.length
  · cases label with
    | client index choice => exact (h.solo i u hu).client_step h.separate index choice
    | child index choice => exact (h.solo i u hu).child_step h.separate index choice
    | main choice => exact (h.solo i u hu).main_step h.separate choice

/-- Whatever the ports and the order of the turns: every child has one client, and every
client can be renamed to `rcopy`, and then goes with its children through a session of its
upload alone. -/
theorem uploads_apart (ports : Ports) (uploads : List Upload) (labels : List Label) :
    let w := Runs.run (step ports) (start uploads) labels
    (∀ s ∈ w.children, ∃ i, i < uploads.length ∧ s.client = ports.client i) ∧
      ∀ i u, uploads[i]? = some u →
        (∃ g, Renames ports w.owners i g) ∧ Solo ports u i w := by
  intro w
  have hapart := apart_run ports uploads labels
  refine ⟨fun s hs => ?_, fun i u hu => ⟨exists_renames ports w.owners i, hapart.solo i u hu⟩⟩
  obtain ⟨j, hj⟩ := List.mem_iff_getElem?.mp hs
  obtain ⟨i, hlt, hclient⟩ := hapart.separate.client_eq hj
  exact ⟨i, hapart.length ▸ hlt, hclient⟩

end Site

end SlidingWindow.Concurrency
