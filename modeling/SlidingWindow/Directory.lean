import SlidingWindow.Concurrency
import SlidingWindow.Forgery
import SlidingWindow.Integrity
import SlidingWindow.Underway
import SlidingWindow.Library.Files

/-! The files of the server, with any number of uploads at once. All children write to one
directory, each through the descriptor that it has from its only `open`. A name that no other
client has asked for is opened only by the children of its client, and if that is one child,
the file holds what it has written. -/
namespace SlidingWindow.Directory

open Library Phases Transfer Completion Underway Forgery LocalFile Integrity Concurrency
open Truncation (calls calls_append descriptor_of_mem opened_mem_calls calls_of_opens)

variable {u : Upload} {c c' : Client} {s s' : Server} {w : World} {input : Input}

/-- What `open` is given: it reads the name up to its first zero byte. -/
def path (u : Upload) : Bytes := u.name.takeWhile (· ≠ 0)

structure Titled (u : Upload) (s : Server) : Prop where
  named : Named u s
  opens : ∀ name ∈ s.trace.opens, name = path u

theorem Titled.turn {top : ℕ} {complete : Prop} (h : Titled u s)
    (hreads : Reads u top complete input) (hturn : Server.Turn s input s') : Titled u s' := by
  refine ⟨h.named.turn hreads hturn, ?_⟩
  have hold {trace : Trace} (hsame : trace.opens = s.trace.opens) :
      ∀ name ∈ trace.opens, name = path u := by
    rw [hsame]
    exact h.opens
  cases hturn with
  | keptOpen | refused | bufferSize | windowSize | ended =>
      exact hold ((Trace.opens_append _ _).trans (List.append_nil _))
  | opened state copied notOpen =>
      intro name hname
      have hcopied := copied.symm.trans (h.named (.inr (.inr state)))
      simp only [Server.openFile, Server.acceptFileName, Server.sendAnswer, Server.log,
        Trace.opens_append, Trace.opens_opened, Trace.opens_sent, List.append_nil,
        List.mem_append, List.mem_singleton] at hname
      rcases hname with hbefore | hnow
      · exact h.opens name hbefore
      · rw [hnow, Except.ok.inj hcopied]
        rfl
  | allocated state allocates =>
      obtain rfl := DataPhase.readyForDataPacketSetup_ok allocates
      exact h.opens
  | delivered state delivers =>
      obtain ⟨added, hadded, hopens, -⟩ := Truncation.adds_receivedData state delivers
      exact hold (by rw [hadded.trace, Trace.opens_append, hopens, List.append_nil])
  | _ => exact h.opens

/-- As long as the client knows nobody but the main port, it sends the name and nothing
else. -/
structure Asks (c : Client) : Prop where
  waits : c.server = .main → c.fileSuccess = false ∧ (c.state = .start ∨
    c.state = .sendRemoteFileName ∨ c.state = .waitForSetupAcks ∨
    c.state = .timeoutOnSetupServer ∨ c.state = .done ∨ c.state = .exited)
  main : ∀ datagram, .sent .main datagram ∈ c.trace → flagOf datagram = some .fileName

theorem Asks.of_known (h : Asks c) (hserver : c'.server ≠ .main)
    (hsends : ∀ datagram, .sent .main datagram ∈ c'.trace → .sent .main datagram ∈ c.trace) :
    Asks c' where
  waits hmain := absurd hmain hserver
  main datagram hsent := h.main datagram (hsends datagram hsent)

theorem Asks.setupTurn (h : Asks c) (hmain : c.server = .main)
    (hsrc : ∀ src datagram, input = .datagram src datagram → src ≠ .main)
    (hturn : Client.SetupTurn c input c') : Asks c' := by
  obtain ⟨hfile, hstate⟩ := h.waits hmain
  cases hturn with
  | started | gaveUp | crashed => exact ⟨fun _ => ⟨hfile, by simp⟩, h.main⟩
  | fileName =>
      refine ⟨fun _ => ⟨hfile, by simp [Client.sendRemoteFileName, Client.sendSetup]⟩, ?_⟩
      intro datagram hsent
      rcases List.mem_append.mp hsent with hbefore | hnow
      · exact h.main datagram hbefore
      · rw [(Event.sent.inj (List.mem_singleton.mp hnow)).2]
        exact flagOf_plainDatagram
  | unanswered =>
      refine ⟨fun _ => ⟨hfile, ?_⟩, h.main⟩
      simp only [Client.unansweredState, hfile]
      split <;> simp
  | corrupted => exact h.of_known (hsrc _ _ rfl) fun _ => id
  | answered =>
      unfold Client.answered
      split <;> exact h.of_known (hsrc _ _ rfl) fun _ => id
  | bufferSize state | windowSize state | allocated state => simp [state] at hstate

theorem Asks.step (hcountable : u.Countable) (hphase : ClientPhase u c) (h : Asks c)
    (hsrc : ∀ src datagram, input = .datagram src datagram → src ≠ .main) :
    Asks (c.step input) := by
  by_cases hmain : c.server = .main
  · obtain ⟨-, hstate⟩ := h.waits hmain
    by_cases hhalted : c.state = .done ∨ c.state = .exited
    · rwa [Client.step_halted hhalted]
    · refine h.setupTurn hmain hsrc (Client.setupTurn ?_ input)
      unfold Client.inSetup
      tauto
  · refine h.of_known ?_ fun datagram hsent => ?_
    · rcases hphase.server_cases input with hsame | ⟨src, datagram, hinput, hserver⟩
      · rwa [hsame]
      · rw [hserver]
        exact hsrc src datagram hinput
    · obtain ⟨added, htrace, hadded⟩ := hphase.sends hcountable (fun _ => trivial) input
      rw [htrace, List.mem_append] at hsent
      rcases hsent with hbefore | hnow
      · exact hbefore
      · obtain ⟨found, hfound, -⟩ := hadded _ hnow
        exact absurd (Event.sent.inj hfound).1.symm hmain

structure Asking (u : Upload) (w : World) : Prop where
  guarded : Forgery.Guarded u w
  asks : Asks w.client
  titled : ∀ s ∈ w.children, Titled u s

theorem asking_session (u : Upload) : Asking u (session u) where
  guarded := guarded_session u
  asks := ⟨fun _ => ⟨rfl, .inl rfl⟩, fun datagram hsent => by
    simp [session, World.start, Client.started] at hsent⟩
  titled s hs := by simp [session, World.start] at hs

theorem src_ne_main {choice : World.Choice} {src : Peer} {datagram : Datagram}
    (h : World.resolve (w.inbox .rcopy) choice = .datagram src datagram) : src ≠ .main := by
  have hinbox : ∀ src datagram, (src, datagram) ∈ w.inbox .rcopy → src ≠ .main ∧ True := by
    intro src datagram hmem
    rcases World.mem_inbox.mp hmem with ⟨rfl, -⟩ | ⟨index, s, -, rfl, -⟩ <;> simp
  have hoffered := World.offered_resolve (w.inbox .rcopy) choice
  rw [h] at hoffered
  exact (World.of_offered hinbox hoffered).1

theorem Asking.main_step (h : Asking u w) (choice : World.Choice) :
    Asking u (w.step (.main choice)) := by
  have hguarded := h.guarded.main_step choice
  rcases w.step_main choice with hsame | ⟨src, datagram, received, hinput, haccepted, hfork⟩
  · rwa [hsame]
  · rw [move, hfork] at hguarded
    rw [hfork]
    refine ⟨hguarded, h.asks, fun s hs => ?_⟩
    rcases List.mem_append.mp hs with hbefore | hforked
    · exact h.titled s hbefore
    · have hoffered := World.offered_resolve (w.inbox .main) choice
      rw [hinput] at hoffered
      rw [List.mem_singleton.mp hforked]
      rcases hoffered with hmem | ⟨hcorrupt, -⟩
      · rcases World.mem_inbox.mp hmem with ⟨-, hsent⟩ | ⟨index, child, hchild, -, hsent⟩
        · have hclient := h.guarded.sends _ _ hsent
          obtain ⟨hpacket, -⟩ := recvBuf_eq_some_of_length hclient.length.2 haccepted
          refine ⟨fun _ => ?_, by simp [Server.forked]⟩
          rw [← nameOf_of_flag hclient (h.asks.main _ hsent), ← hpacket]
          rfl
        · have hdst := (h.guarded.tied child (List.mem_of_getElem? hchild)).sends _ _ hsent
          simp at hdst
      · simp [hcorrupt] at haccepted

theorem Asking.step (hcountable : u.Countable) (h : Asking u w) (label : World.Label) :
    Asking u (w.step label) := by
  cases label with
  | client choice =>
      exact ⟨h.guarded.client_step hcountable _,
        h.asks.step hcountable h.guarded.phase fun _ _ hinput => src_ne_main hinput, h.titled⟩
  | child index choice =>
      refine ⟨h.guarded.child_step hcountable index choice, h.asks, ?_⟩
      have hreads := @Forgery.Guarded.reads u w h.guarded (.child index) (by simp) choice
      exact World.forall_children_step h.titled fun s hs =>
        (h.titled s (List.mem_of_getElem? hs)).turn hreads (s.turn _)
  | main choice => exact h.main_step choice

theorem asking_run (hcountable : u.Countable) (labels : List World.Label) :
    Asking u (Runs.run World.step (session u) labels) :=
  Runs.run_invariant (Asking u) (fun _ label h _ => h.step hcountable label)
    (asking_session u) Runs.along_true

/-- A child opens its file once, before it writes anything and before the data phase. -/
structure Orderly (s : Server) : Prop where
  opened : Setup.Opened s
  closed : s.fileOpen = false → s.trace.opens = [] ∧ s.trace.writes = [] ∧ s.curRRnum = 0
  filed : s.fileOpen = true → ∃ name, s.trace.opens = [name] ∧
    ∀ index, calls index s.trace = .opened index name :: s.trace.writes.map (.wrote index)

theorem orderly_forked (client : Peer) (packet : Bytes) :
    Orderly (Server.forked client packet) where
  opened := .inr (.inl rfl)
  closed _ := ⟨rfl, rfl, rfl⟩
  filed hopen := by simp [Server.forked] at hopen

theorem Orderly.keeps (h : Orderly s) (hopened : Setup.Opened s') {added : Trace}
    (htrace : s'.trace = s.trace ++ added) (hopens : added.opens = [])
    (hopen : s'.fileOpen = s.fileOpen)
    (hclosed : s.fileOpen = false → added.writes = [] ∧ s'.curRRnum = s.curRRnum) :
    Orderly s' where
  opened := hopened
  closed hfalse := by
    obtain ⟨hnone, hwrites, hfresh⟩ := h.closed (hopen ▸ hfalse)
    obtain ⟨hquiet, hsame⟩ := hclosed (hopen ▸ hfalse)
    simp [htrace, hopens, hnone, hwrites, hquiet, hsame, hfresh]
  filed htrue := by
    obtain ⟨name, hname, hcalls⟩ := h.filed (hopen ▸ htrue)
    refine ⟨name, by simp [htrace, hopens, hname], fun index => ?_⟩
    rw [htrace, calls_append, calls_of_opens hopens, hcalls index, Trace.writes_append,
      List.map_append, List.cons_append]

theorem Orderly.turn (h : Orderly s) (hturn : Server.Turn s input s') : Orderly s' := by
  have hopened := Setup.opened_turn h.opened hturn
  have hopen (hstate : s.state ≠ .start ∧ s.state ≠ .setupClientSocket ∧
      s.state ≠ .receivedRemoteFileName ∧ s.state ≠ .done ∧ s.state ≠ .exited) :
      s.fileOpen = true := by
    simpa [Setup.Opened, hstate] using h.opened
  cases hturn with
  | keptOpen | refused | bufferSize | windowSize | ended =>
      exact h.keeps hopened rfl rfl rfl fun _ => ⟨rfl, rfl⟩
  | @opened _ name state copied notOpen =>
      obtain ⟨hopens, hwrites, -⟩ := h.closed notOpen
      have htrace : ({ s with fileName := name }.openFile.acceptFileName).trace =
          s.trace ++ [.opened (name.takeWhile (· ≠ 0)),
            .sent s.client (plainDatagram [] .ackFileName s.seqNum)] :=
        List.append_assoc ..
      refine ⟨hopened, fun hfalse => ?_, fun _ => ⟨name.takeWhile (· ≠ 0), ?_, fun index => ?_⟩⟩
      · simp [Server.openFile, Server.acceptFileName, Server.sendAnswer, Server.log] at hfalse
      · rw [htrace, Trace.opens_append, hopens]
        rfl
      · rw [htrace, calls_append, calls_of_opens hopens, Trace.writes_append, hwrites]
        rfl
  | allocated state allocates =>
      obtain rfl := DataPhase.readyForDataPacketSetup_ok allocates
      refine h.keeps hopened (List.append_nil _).symm rfl rfl fun hfalse => ?_
      simp [hopen (by simp [state])] at hfalse
  | delivered state delivers =>
      obtain ⟨added, hadded, hopens, -⟩ := Truncation.adds_receivedData state delivers
      refine h.keeps hopened hadded.trace hopens hadded.fileOpen fun hfalse => ?_
      simp [hopen (by simp [state])] at hfalse
  | _ => exact h.keeps hopened (List.append_nil _).symm rfl rfl fun _ => ⟨rfl, rfl⟩

section Site

variable {ports : Ports} {w : Site} {label : Concurrency.Label}

def produced (ports : Ports) (w : Site) : Concurrency.Label → List (Files.Call ℕ Bytes UInt8)
  | .child index choice =>
      match w.children[index]? with
      | some s =>
          calls index ((s.step (World.resolve (w.inbox ports (ports.child index)) choice)).trace.drop
            s.trace.length)
      | none => []
  | _ => []

def history (ports : Ports) :
    Site → List Concurrency.Label → List (Files.Call ℕ Bytes UInt8)
  | _, [] => []
  | w, label :: labels => produced ports w label ++ history ports (w.step ports label) labels

def directory (ports : Ports) (files : Bytes → Bytes) (w : Site)
    (labels : List Concurrency.Label) : Files.Disk ℕ Bytes UInt8 :=
  Truncation.directory files (history ports w labels)

def callsOf (w : Site) (index : ℕ) : List (Files.Call ℕ Bytes UInt8) :=
  (w.children[index]?.map fun s => calls index s.trace).getD []

theorem callsOf_of_child {index : ℕ} {s : Server} (hs : w.children[index]? = some s) :
    callsOf w index = calls index s.trace := by
  simp [callsOf, hs]

theorem filter_calls {index other : ℕ} {trace : Trace} :
    (calls index trace).filter (·.descriptor = other) =
      if index = other then calls index trace else [] := by
  split
  · rename_i hsame
    exact List.filter_eq_self.mpr fun made hmade => by
      simp [descriptor_of_mem hmade, hsame]
  · rename_i hne
    exact List.filter_eq_nil_iff.mpr fun made hmade => by
      simp [descriptor_of_mem hmade, hne]

theorem callsOf_step (ports : Ports) (w : Site) (label : Concurrency.Label) (index : ℕ) :
    callsOf (w.step ports label) index =
      callsOf w index ++ (produced ports w label).filter (·.descriptor = index) := by
  cases label with
  | client => simp [callsOf, Site.step, produced]
  | child turned choice =>
      cases hs : w.children[turned]? with
      | none =>
          have hsame : (w.step ports (.child turned choice)).children = w.children :=
            List.modify_eq_self (List.getElem?_eq_none_iff.mp hs)
          simp [callsOf, hsame, produced, hs]
      | some s =>
          obtain ⟨added, htrace, -, -⟩ :=
            Truncation.turn_adds (s.turn (World.resolve (w.inbox ports (ports.child turned)) choice))
          simp only [produced, hs, htrace, List.drop_left, filter_calls]
          by_cases hindex : turned = index
          · subst hindex
            rw [if_pos rfl, callsOf_of_child hs, ← calls_append, ← htrace]
            apply callsOf_of_child
            simp [Site.step, hs]
          · rw [if_neg hindex, List.append_nil, callsOf, callsOf, Site.step,
              List.getElem?_modify_ne _ _ hindex]
  | main choice =>
      rcases w.step_main ports choice with hsame | ⟨src, datagram, received, -, -, hfork⟩
      · simp [hsame, produced]
      · simp only [hfork, produced, List.filter_nil, List.append_nil, callsOf,
          List.getElem?_append]
        split
        · rfl
        · rename_i hlast
          rw [List.getElem?_eq_none (Nat.le_of_not_lt hlast)]
          cases index - w.children.length with
          | zero => rfl
          | succ => rfl

theorem callsOf_run (ports : Ports) (w : Site) (labels : List Concurrency.Label) (index : ℕ) :
    callsOf (Runs.run (Site.step ports) w labels) index =
      callsOf w index ++ (history ports w labels).filter (·.descriptor = index) := by
  induction labels generalizing w with
  | nil => simp [history]
  | cons label labels ih =>
      rw [Runs.run_cons, ih, callsOf_step, history, List.filter_append, List.append_assoc]

theorem filter_history (ports : Ports) (uploads : List Upload)
    (labels : List Concurrency.Label) (index : ℕ) :
    (history ports (Site.start uploads) labels).filter (·.descriptor = index) =
      callsOf (Runs.run (Site.step ports) (Site.start uploads) labels) index := by
  rw [callsOf_run]
  rfl

theorem orderly_run (ports : Ports) (uploads : List Upload) (labels : List Concurrency.Label) :
    ∀ s ∈ (Runs.run (Site.step ports) (Site.start uploads) labels).children, Orderly s := by
  refine Runs.run_invariant (fun w : Site => ∀ s ∈ w.children, Orderly s)
    (fun w label h _ => ?_) (fun s hs => by simp [Site.start] at hs) Runs.along_true
  cases label with
  | client index choice => exact h
  | child index choice =>
      intro s hs
      obtain ⟨other, hother⟩ := List.mem_iff_getElem?.mp hs
      simp only [Site.step, List.getElem?_modify, Option.map_eq_map, Option.map_eq_some_iff]
        at hother
      obtain ⟨before, hbefore, rfl⟩ := hother
      have horderly := h before (List.mem_of_getElem? hbefore)
      split
      · exact horderly.turn (before.turn _)
      · exact horderly
  | main choice =>
      rcases w.step_main ports choice with hsame | ⟨src, datagram, received, -, -, hfork⟩
      · rwa [hsame]
      · rw [hfork]
        intro s hs
        rcases List.mem_append.mp hs with hbefore | hforked
        · exact h s hbefore
        · rw [List.mem_singleton.mp hforked]
          exact orderly_forked src received.packet

end Site

theorem opens_readdress (g : Peer → Peer) (trace : Trace) :
    Trace.opens (trace.map (Event.readdress g)) = trace.opens := by
  rw [Trace.opens, List.filterMap_map]
  exact List.filterMap_congr fun event _ => by cases event <;> rfl

theorem writes_readdress (g : Peer → Peer) (trace : Trace) :
    Trace.writes (trace.map (Event.readdress g)) = trace.writes := by
  rw [Trace.writes, List.filterMap_map]
  exact List.filterMap_congr fun event _ => by cases event <;> rfl

section Uploads

variable {ports : Ports} {requests : List Request} {labels : List Concurrency.Label} {i j : ℕ}
  {r : Request} {files : Bytes → Bytes}

def after (ports : Ports) (requests : List Request) (labels : List Concurrency.Label) : Site :=
  Runs.run (Site.step ports) (Site.start (requests.map Request.upload)) labels

def filesAfter (ports : Ports) (files : Bytes → Bytes) (requests : List Request)
    (labels : List Concurrency.Label) : Bytes → Bytes :=
  (directory ports files (Site.start (requests.map Request.upload)) labels).content

theorem exists_session (ports : Ports) (labels : List Concurrency.Label)
    (hr : requests[i]? = some r) :
    ∃ g labels' c, (after ports requests labels).clients[i]? = some c ∧
      Runs.run World.step (session r.upload) labels' =
        Site.sight ports i g c (after ports requests labels).children := by
  have hapart := Site.apart_run ports (requests.map Request.upload) labels
  obtain ⟨g, hg⟩ := Site.exists_renames ports (after ports requests labels).owners i
  obtain ⟨labels', c, hc, hrun⟩ := hapart.solo i r.upload (by simp [hr]) g hg
  exact ⟨g, labels', c, hc, hrun⟩

theorem mem_sight {w : Site} {g : Peer → Peer} (hs : w.children[j]? = some s)
    (hclient : s.client = ports.client i) :
    s.readdress g ∈ (Site.sight ports i g c w.children).children :=
  List.mem_map_of_mem (List.mem_filter.mpr
    ⟨List.mem_of_getElem? hs, by simp [Site.belongs, hclient]⟩)

theorem exists_request (hs : (after ports requests labels).children[j]? = some s) :
    ∃ k request, requests[k]? = some request ∧ s.client = ports.client k ∧
      (∀ name ∈ s.trace.opens, name = path request.upload) ∧
      s.trace.writes.flatten <+: request.file := by
  have hapart := Site.apart_run ports (requests.map Request.upload) labels
  obtain ⟨k, hlt, hclient⟩ := hapart.separate.client_eq hs
  rw [hapart.length, List.length_map] at hlt
  have hrequest := List.getElem?_eq_getElem hlt
  obtain ⟨g, labels', c, -, hrun⟩ := exists_session ports labels hrequest
  have hasking := asking_run requests[k].countable labels'
  rw [hrun] at hasking
  have hopens := (hasking.titled _ (mem_sight hs hclient)).opens
  rw [Server.readdress, opens_readdress] at hopens
  have hwrites := hasking.guarded.part (mem_sight hs hclient)
  rw [Server.readdress, writes_readdress] at hwrites
  exact ⟨k, _, hrequest, hclient, hopens, hwrites⟩

theorem opened_mem_history {other : ℕ} {name : Bytes} :
    .opened other name ∈ history ports (Site.start (requests.map Request.upload)) labels ↔
      ∃ s, (after ports requests labels).children[other]? = some s ∧ name ∈ s.trace.opens := by
  constructor
  · intro hmem
    have hcalls : .opened other name ∈ callsOf (after ports requests labels) other := by
      rw [after, ← filter_history]
      exact List.mem_filter.mpr ⟨hmem, by simp [Files.Call.descriptor]⟩
    cases hs : (after ports requests labels).children[other]? with
    | none => simp [callsOf, hs] at hcalls
    | some s =>
        rw [callsOf_of_child hs] at hcalls
        exact ⟨s, rfl, (opened_mem_calls.mp hcalls).2⟩
  · rintro ⟨s, hs, hname⟩
    have hcalls : .opened other name ∈ callsOf (after ports requests labels) other := by
      rw [callsOf_of_child hs]
      exact opened_mem_calls.mpr ⟨rfl, hname⟩
    rw [after, ← filter_history] at hcalls
    exact (List.mem_filter.mp hcalls).1

theorem opened_of_sole
    (hpaths : ∀ (k : ℕ) (other : Request), requests[k]? = some other → k ≠ i →
      path other.upload ≠ path r.upload) {other : ℕ}
    (hmem : .opened other (path r.upload) ∈
      history ports (Site.start (requests.map Request.upload)) labels) :
    ∃ s, (after ports requests labels).children[other]? = some s ∧
      s.client = ports.client i ∧ s.trace.opens ≠ [] := by
  obtain ⟨s, hs, hopened⟩ := opened_mem_history.mp hmem
  obtain ⟨k, request, hrequest, hclient, hopens, -⟩ := exists_request hs
  have howner : k = i := by
    by_contra hne
    exact hpaths k request hrequest hne (hopens _ hopened).symm
  exact ⟨s, hs, howner ▸ hclient, List.ne_nil_of_mem hopened⟩

theorem calls_of_opened {name : Bytes}
    (hs : (after ports requests labels).children[j]? = some s) (hname : name ∈ s.trace.opens) :
    (history ports (Site.start (requests.map Request.upload)) labels).filter
        (·.descriptor = j) =
      .opened j name :: s.trace.writes.map (.wrote j) := by
  have horderly : Orderly s := orderly_run ports _ labels s (List.mem_of_getElem? hs)
  have hopen : s.fileOpen = true := by
    by_contra hclosed
    simp [(horderly.closed (by simpa using hclosed)).1] at hname
  obtain ⟨opened, hopened, hcalls⟩ := horderly.filed hopen
  obtain rfl : name = opened := by simpa [hopened] using hname
  rw [filter_history, ← hcalls j]
  exact callsOf_of_child hs

theorem content_of_child (hr : requests[i]? = some r)
    (hpaths : ∀ (k : ℕ) (other : Request), requests[k]? = some other → k ≠ i →
      path other.upload ≠ path r.upload)
    (hone : ((after ports requests labels).children.filter
      fun s => s.client = ports.client i).length ≤ 1)
    (hs : (after ports requests labels).children[j]? = some s)
    (hclient : s.client = ports.client i) (hopens : s.trace.opens ≠ []) :
    filesAfter ports files requests labels (path r.upload) = s.trace.writes.flatten := by
  obtain ⟨name, hname⟩ := List.exists_mem_of_ne_nil _ hopens
  obtain ⟨k, request, hrequest, hk, htitle, -⟩ := exists_request hs
  obtain rfl := ports.client_injective (hclient.symm.trans hk)
  obtain rfl := Option.some.inj (hr.symm.trans hrequest)
  obtain rfl : name = path r.upload := htitle name hname
  refine Files.Disk.content_of_sole (fun other place hother => by simp at hother) ?_
    (calls_of_opened hs hname)
  intro other hmem
  obtain ⟨s', hs', hclient', -⟩ := opened_of_sole hpaths hmem
  exact Filtering.eq_of_length_filter hone hs' (by simpa using hclient') hs
    (by simpa using hclient)

theorem alone_or_pair (hr : requests[i]? = some r)
    (hone : ((after ports requests labels).children.filter
      fun s => s.client = ports.client i).length ≤ 1) :
    ∃ g c, (after ports requests labels).clients[i]? = some c ∧
      ((Alone r.upload ⟨c.readdress g, []⟩ ∧
          ∀ s ∈ (after ports requests labels).children, s.client ≠ ports.client i) ∨
        ∃ s, (after ports requests labels).children.filter (fun s => s.client = ports.client i) =
          [s] ∧ Pair r.upload (c.readdress g) (s.readdress g)) := by
  obtain ⟨g, labels', c, hc, hrun⟩ := exists_session ports labels hr
  have hsession := inSession_run r.countable labels' (by
    rw [hrun]
    simpa [Site.sight, Site.belongs] using hone)
  rw [hrun] at hsession
  refine ⟨g, c, hc, ?_⟩
  rcases hsession with halone | ⟨s', hcarries⟩
  · have hnone := halone.children
    simp only [Site.sight, List.map_eq_nil_iff] at hnone
    refine .inl ⟨by simpa [Site.sight, hnone] using halone, fun s hs hclient => ?_⟩
    have hkept := List.filter_eq_nil_iff.mp hnone s hs
    simp [Site.belongs, hclient] at hkept
  · have hchildren := hcarries.children
    simp only [Site.sight, Site.belongs, List.map_eq_singleton_iff] at hchildren
    obtain ⟨s, hkept, rfl⟩ := hchildren
    exact .inr ⟨s, hkept, hcarries.pair⟩

/-- Any number of uploads at once. The file of a client that has a name to itself and at
most one child is as it was until that child opens it; then it is the beginning of the local
file, and the whole of it once the client has sent an `END_OF_FILE`. -/
theorem files_apart (ports : Ports) (files : Bytes → Bytes) (requests : List Request)
    (labels : List Concurrency.Label) {i : ℕ} {r : Request} (hr : requests[i]? = some r)
    (hpaths : ∀ (k : ℕ) (other : Request), requests[k]? = some other → k ≠ i →
      path other.upload ≠ path r.upload)
    (hone : ((after ports requests labels).children.filter
      fun s => s.client = ports.client i).length ≤ 1) :
    let w := after ports requests labels
    let content := filesAfter ports files requests labels (path r.upload)
    ((∀ s ∈ w.children, s.client = ports.client i → s.trace.opens = []) →
        content = files (path r.upload)) ∧
      (∀ s ∈ w.children, s.client = ports.client i → s.trace.opens ≠ [] →
        content <+: r.file) ∧
      ∀ c, w.clients[i]? = some c → ∀ dst datagram, .sent dst datagram ∈ c.trace →
        flagOf datagram = some .endOfFile → content = r.file := by
  intro w content
  have hcontent {s : Server} (hs : s ∈ w.children) (hclient : s.client = ports.client i)
      (hopens : s.trace.opens ≠ []) : content = s.trace.writes.flatten := by
    obtain ⟨j, hj⟩ := List.mem_iff_getElem?.mp hs
    exact content_of_child hr hpaths hone hj hclient hopens
  obtain ⟨g, c, hc, hsession⟩ := alone_or_pair hr hone
  refine ⟨fun hnone => ?_, fun s hs hclient hopens => ?_, fun c' hc' dst datagram hsent hflag => ?_⟩
  · refine Files.Disk.content_of_unopened (fun other place hother => by simp at hother) ?_
    intro other hmem
    obtain ⟨s, hs, hclient, hopens⟩ := opened_of_sole hpaths hmem
    exact hopens (hnone s (List.mem_of_getElem? hs) hclient)
  · rw [hcontent hs hclient hopens]
    rcases hsession with ⟨-, hnone⟩ | ⟨s', hkept, hpair⟩
    · exact absurd hclient (hnone s hs)
    · have hmem : s ∈ w.children.filter fun s => s.client = ports.client i :=
        List.mem_filter.mpr ⟨hs, by simpa using hclient⟩
      rw [hkept, List.mem_singleton] at hmem
      rw [hmem, ← writes_readdress g]
      exact (intact_of_pair hpair).part
  · obtain rfl := Option.some.inj (hc.symm.trans hc')
    have hsent' : .sent (g dst) datagram ∈ (c.readdress g).trace := Site.sent_readdress hsent
    rcases hsession with ⟨halone, -⟩ | ⟨s, hkept, hpair⟩
    · exact ((halone.sends _ _ hsent').2.complete_of_flag hflag).elim
    · have hmem : s ∈ w.children.filter fun s => s.client = ports.client i := by
        rw [hkept]
        exact List.mem_singleton_self s
      obtain ⟨hs, hclient⟩ := List.mem_filter.mp hmem
      have hcomplete := (hpair.sends _ _ hsent').2.complete_of_flag hflag
      have hopens : s.trace.opens ≠ [] := by
        intro hnone
        have horderly : Orderly s := orderly_run ports _ labels s hs
        by_cases hopen : s.fileOpen = true
        · obtain ⟨name, hname, -⟩ := horderly.filed hopen
          simp [hnone] at hname
        · have hfresh := (horderly.closed (by simpa using hopen)).2.2
          change s.curRRnum = r.upload.chunks.length + 1 at hcomplete
          omega
      rw [hcontent hs (by simpa using hclient) hopens, ← writes_readdress g]
      exact (intact_of_pair hpair).ended _ _ hsent' hflag

def uploadedAs (requests : List Request) (name : Bytes) : Set Bytes :=
  {file | ∃ r ∈ requests, path r.upload = name ∧ r.file = file}

theorem due_history (ports : Ports) (files : Bytes → Bytes) (requests : List Request)
    (labels : List Concurrency.Label) (name : Bytes) :
    Files.Disk.Due (uploadedAs requests name) name ⟨files, fun _ => none⟩
      (history ports (Site.start (requests.map Request.upload)) labels) where
  writing user place huser := by simp at huser
  opening user huser := by
    obtain ⟨s, hs, hname⟩ := opened_mem_history.mp huser
    obtain ⟨k, request, hrequest, -, hopens, hwrites⟩ := exists_request hs
    exact ⟨request.file, ⟨request, List.mem_of_getElem? hrequest, (hopens name hname).symm, rfl⟩,
      Nat.zero_le _, s.trace.writes, calls_of_opened hs hname, hwrites⟩

/-- Any number of uploads at once, under whatever names, and any number of children for each.
A file that no child has opened is as it was. In any other, each byte is that of a file which
is uploaded under this name, at its place, or zero, and it is not longer than all of them. -/
theorem files_patched (ports : Ports) (files : Bytes → Bytes) (requests : List Request)
    (labels : List Concurrency.Label) (name : Bytes) :
    let w := after ports requests labels
    let content := filesAfter ports files requests labels name
    ((∀ s ∈ w.children, name ∉ s.trace.opens) → content = files name) ∧
      ((∃ s ∈ w.children, name ∈ s.trace.opens) →
        Files.Patched 0 (uploadedAs requests name) content) := by
  intro w content
  refine ⟨fun hnone => ?_, fun ⟨s, hs, hname⟩ => ?_⟩
  · refine Files.Disk.content_of_unopened (fun other place hother => by simp at hother) ?_
    intro other hmem
    obtain ⟨s, hs, hname⟩ := opened_mem_history.mp hmem
    exact hnone s (List.mem_of_getElem? hs) hname
  · obtain ⟨j, hj⟩ := List.mem_iff_getElem?.mp hs
    exact Files.Disk.patched_of_opened (due_history ports files requests labels name)
      (opened_mem_history.mpr ⟨s, hj, hname⟩)

theorem note_width : 1 ≤ 1 ∧ 1 < 4294967296 := by decide

theorem note_count (file : UInt8) : ([file].length + 400 - 1) / 400 + 1 < 4294967295 := by simp

theorem note_name (name : UInt8) : [name].length ≤ 1000 := by simp

def note (file name : UInt8) : Request where
  file := [file]
  width := 1
  bufSize := 400
  name := [name]
  bufSize_range := smallest_bufSize
  width_range := note_width
  name_length := note_name name
  count := note_count file

def bothOpen : List Concurrency.Label :=
  [.client 0 .quiet, .client 1 .quiet, .client 1 .quiet, .client 0 .quiet, .main (.deliver 1),
    .main (.deliver 0), .child 0 .quiet, .child 1 .quiet, .child 0 .quiet, .child 1 .quiet,
    .child 1 .quiet, .child 0 .quiet]

def oneWrites : List Concurrency.Label :=
  bothOpen ++ [.client 0 (.deliver 0), .client 0 .quiet, .child 1 (.deliver 0), .child 1 .quiet,
    .client 0 (.deliver 1), .client 0 .quiet, .child 1 (.deliver 1), .child 1 .quiet,
    .client 0 (.deliver 2), .client 0 .quiet, .client 0 .quiet, .child 1 (.deliver 2),
    .child 1 .quiet, .child 1 .quiet]

/-- The file of the first client holds the byte of that client. -/
theorem files_apart_oneWrites :
    let requests := [note 65 97, note 66 98]
    filesAfter .alternating (fun _ => [1, 2]) requests oneWrites [97] ≠ [] ∧
      ∀ s ∈ (after .alternating requests oneWrites).children, s.client = .child 0 →
        s.trace.opens ≠ [] →
          filesAfter .alternating (fun _ => [1, 2]) requests oneWrites [97] <+: [65] := by
  intro requests
  refine ⟨by decide +kernel, (@files_apart .alternating (fun _ => [1, 2]) requests oneWrites 0
    (note 65 97) rfl ?_ (by decide +kernel)).2.1⟩
  intro k other hother hne
  match k with
  | 0 => exact absurd rfl hne
  | 1 =>
      obtain rfl := Option.some.inj hother
      decide
  | k + 2 => simp [requests] at hother

end Uploads

end SlidingWindow.Directory
