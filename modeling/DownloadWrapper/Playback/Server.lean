import DownloadWrapper.Lib.Transition

/-!
# The playback proxy

`dw_proxy_start` makes an `io_context`, an acceptor on it and the thread that runs it, and keeps each in
a global of its own; `dw_proxy_stop` releases them. A context has to outlive the acceptor that was opened
on it. Contexts are numbered in the order in which they are made.
-/

namespace DownloadWrapper.Playback

open Transition

/-- What is made and released, of which context. -/
inductive Act where
  | contextMade (context : Nat)
  | contextGone (context : Nat)
  | acceptorMade (context : Nat)
  | acceptorGone (context : Nat)
  deriving DecidableEq

def Act.context : Act → Nat
  | .contextMade context => context
  | .contextGone context => context
  | .acceptorMade context => context
  | .acceptorGone context => context

/-- `g_acceptor`: the context it is on, the port it listens on, and the `async_accept`s under way. -/
structure Acceptor where
  context : Nat
  port : Nat
  accepts : Nat := 0
  deriving DecidableEq

/-- The globals of the proxy. The thread is known by the context it runs; no call reads the log, which
has the latest act first. -/
structure Server where
  running : Bool := false
  port : Nat := 0
  ioc : Option Nat := none
  acceptor : Option Acceptor := none
  thread : Option Nat := none
  made : Nat := 0
  log : List Act := []
  deriving DecidableEq

structure StartEnv where
  context : Bool := true
  port : Option Nat
  thread : Bool := true

namespace Server

def newContext (s : Server) : Server :=
  { s with
    ioc := some s.made
    made := s.made + 1
    log := (s.ioc.map .contextGone).toList ++ .contextMade s.made :: s.log }

def newAcceptor (context port : Nat) (s : Server) : Server :=
  { s with
    acceptor := some { context := context, port := port }
    log := (s.acceptor.map fun a => .acceptorGone a.context).toList ++ .acceptorMade context :: s.log }

def doAccept (s : Server) : Server :=
  { s with acceptor := s.acceptor.map fun a => { a with accepts := a.accepts + 1 } }

def startFailed (s : Server) : Server := { s with running := false, port := 0 }

def dwProxyStart (env : StartEnv) (s : Server) : Int × Server :=
  if s.running then (s.port, s)
  else if !env.context then (-1, s.startFailed)
  else
    let context := s.made
    let s := s.newContext
    match env.port with
    | none => (-1, s.startFailed)
    | some port =>
        let s := { s.newAcceptor context port with port := port, running := true }.doAccept
        if env.thread then (port, { s with thread := some context }) else (-1, s.startFailed)

/-- The thread is joined before the acceptor and then the context are released. -/
def dwProxyStop (s : Server) : Server :=
  { s with
    running := false
    port := 0
    ioc := none
    acceptor := none
    thread := none
    log := (s.ioc.map .contextGone).toList ++
      ((s.acceptor.map fun a => .acceptorGone a.context).toList ++ s.log) }

/-- The handler of an `async_accept`, on the proxy's thread: whatever came of it, the next one begins as
long as the proxy runs. -/
def accepted (s : Server) : Server :=
  match s.acceptor with
  | none => s
  | some a =>
      if s.thread = some a.context ∧ 0 < a.accepts then
        let s := { s with acceptor := some { a with accepts := a.accepts - 1 } }
        if s.running then s.doAccept else s
      else s

inductive Call where
  | start (env : StartEnv)
  | stop
  | accepted

def next (s : Server) : Call → Server
  | .start env => (s.dwProxyStart env).2
  | .stop => s.dwProxyStop
  | .accepted => s.accepted

inductive Started (s : Server) : StartEnv → Server → Prop
  | already {env : StartEnv} (hrunning : s.running = true) : Started s env s
  | noContext {env : StartEnv} (hidle : s.running = false) (hcontext : env.context = false) :
      Started s env s.startFailed
  | noPort {env : StartEnv} (hidle : s.running = false) (hcontext : env.context = true) :
      Started s env s.newContext.startFailed
  /-- The acceptor stays behind, with an `async_accept` nobody runs. -/
  | noThread {env : StartEnv} (port : Nat) (hidle : s.running = false) (hcontext : env.context = true) :
      Started s env
        { s.newContext.newAcceptor s.made port with port := port, running := true }.doAccept.startFailed
  | listening {env : StartEnv} (port : Nat) (hidle : s.running = false) (hcontext : env.context = true) :
      Started s env
        { { s.newContext.newAcceptor s.made port with port := port, running := true }.doAccept with
          thread := some s.made }

theorem started_dwProxyStart (env : StartEnv) (s : Server) : Started s env (s.dwProxyStart env).2 := by
  rw [dwProxyStart]
  split
  next hrunning => exact .already hrunning
  next hidle =>
    replace hidle : s.running = false := by simpa using hidle
    split
    next hcontext => exact .noContext hidle (by simpa using hcontext)
    next hcontext =>
      replace hcontext : env.context = true := by simpa using hcontext
      cases env.port with
      | none => exact .noPort hidle hcontext
      | some port =>
          simp only
          split
          · exact .listening port hidle hcontext
          · exact .noThread port hidle hcontext

/-! ### Contexts outlive their acceptors -/

/-- No context goes while an acceptor is on it, and no acceptor after its context. -/
def Outlives : List Act → Prop
  | [] => True
  | .contextGone i :: older =>
      (.acceptorMade i ∈ older → .acceptorGone i ∈ older) ∧ Outlives older
  | .acceptorGone i :: older => .contextGone i ∉ older ∧ Outlives older
  | .contextMade _ :: older => Outlives older
  | .acceptorMade _ :: older => Outlives older

theorem Outlives.of_append {newer older : List Act} (h : Outlives (newer ++ older)) :
    Outlives older := by
  induction newer with
  | nil => exact h
  | cons act newer ih =>
      cases act with
      | contextGone i => exact ih h.2
      | acceptorGone i => exact ih h.2
      | contextMade i => exact ih h
      | acceptorMade i => exact ih h

theorem log_next (s : Server) (call : Call) : ∃ newer, (s.next call).log = newer ++ s.log := by
  cases call with
  | start env =>
      have hstarted := s.started_dwProxyStart env
      simp only [next]
      generalize (s.dwProxyStart env).2 = s' at hstarted
      cases hstarted with
      | already hrunning => exact ⟨[], rfl⟩
      | noContext hidle hcontext => exact ⟨[], rfl⟩
      | noPort hidle hcontext => exact ⟨_ ++ [_], (List.append_assoc _ [_] s.log).symm⟩
      | noThread port hidle hcontext | listening port hidle hcontext =>
          refine ⟨((s.acceptor.map fun a => Act.acceptorGone a.context).toList ++ [.acceptorMade s.made]) ++
            ((s.ioc.map .contextGone).toList ++ [.contextMade s.made]), ?_⟩
          simp [doAccept, startFailed, newAcceptor, newContext]
  | stop => exact ⟨_ ++ _, (List.append_assoc _ _ s.log).symm⟩
  | accepted =>
      simp only [next, accepted]
      split
      · exact ⟨[], rfl⟩
      split
      · split <;> exact ⟨[], rfl⟩
      · exact ⟨[], rfl⟩

theorem log_foldl (s : Server) (calls : List Call) :
    ∃ newer, (calls.foldl next s).log = newer ++ s.log := by
  induction calls generalizing s with
  | nil => exact ⟨[], rfl⟩
  | cons call calls ih =>
      obtain ⟨newer, hnewer⟩ := ih (s.next call)
      obtain ⟨first, hfirst⟩ := s.log_next call
      exact ⟨newer ++ first, by rw [List.foldl_cons, hnewer, hfirst, List.append_assoc]⟩

/-- A start that makes a new context finds no acceptor in its place: what a failed start left behind has
been released by a stop. -/
def StopsFirst (s : Server) : Call → Prop
  | .start env => s.running = true ∨ env.context = false ∨ s.acceptor = none
  | _ => True

def opened (s : Server) : Option Nat := s.acceptor.map Acceptor.context

@[simp] theorem opened_doAccept (s : Server) : s.doAccept.opened = s.opened := by
  simp [opened, doAccept, Function.comp_def]

structure Kept (s : Server) : Prop where
  outlives : Outlives s.log
  made : ∀ act ∈ s.log, act.context < s.made
  ioc : ∀ i, s.ioc = some i → i < s.made ∧ .contextGone i ∉ s.log
  opened : ∀ i, s.opened = some i → s.ioc = some i ∧ .acceptorMade i ∈ s.log ∧ .acceptorGone i ∉ s.log
  gone : ∀ i, .acceptorMade i ∈ s.log → .acceptorGone i ∈ s.log ∨ s.opened = some i

theorem Kept.of_eq {s s' : Server} (h : Kept s) (hlog : s'.log = s.log) (hmade : s'.made = s.made)
    (hioc : s'.ioc = s.ioc) (hopened : s'.opened = s.opened) : Kept s' where
  outlives := hlog ▸ h.outlives
  made := by rw [hlog, hmade]; exact h.made
  ioc := by rw [hlog, hmade, hioc]; exact h.ioc
  opened := by rw [hlog, hioc, hopened]; exact h.opened
  gone := by rw [hlog, hopened]; exact h.gone

theorem not_mem_of_made {s : Server} (h : Kept s) {act : Act} (hcontext : act.context = s.made) :
    act ∉ s.log :=
  fun hmem => absurd (h.made act hmem) (by simp [hcontext])

theorem kept_newContext {s : Server} (h : Kept s) (hnone : s.acceptor = none) : Kept s.newContext := by
  have hclosed : s.opened = none := by simp [Server.opened, hnone]
  have hgone : ∀ i, .acceptorMade i ∈ s.log → .acceptorGone i ∈ s.log := fun i hmem =>
    (h.gone i hmem).resolve_right (by simp [hclosed])
  have hstill : s.newContext.opened = none := hclosed
  refine ⟨?_, ?_, ?_, fun i hi => absurd hi (by simp [hstill]), ?_⟩
  · cases hioc : s.ioc with
    | none => simpa [newContext, hioc, Outlives] using h.outlives
    | some i => simpa [newContext, hioc, Outlives] using ⟨hgone i, h.outlives⟩
  · intro act hmem
    simp only [newContext, List.mem_append, List.mem_cons, Option.mem_toList,
      Option.map_eq_some_iff] at hmem ⊢
    rcases hmem with ⟨i, hioc, rfl⟩ | rfl | hmem
    · exact Nat.lt_succ_of_lt (h.ioc i hioc).1
    · exact Nat.lt_succ_self _
    · exact Nat.lt_succ_of_lt (h.made act hmem)
  · intro i hi
    obtain rfl := Option.some.inj hi
    refine ⟨Nat.lt_succ_self _, fun hmem => ?_⟩
    simp only [newContext, List.mem_append, List.mem_cons, Option.mem_toList,
      Option.map_eq_some_iff, Act.contextGone.injEq, reduceCtorEq, false_or] at hmem
    rcases hmem with ⟨i, hioc, rfl⟩ | hmem
    · exact absurd (h.ioc _ hioc).1 (Nat.lt_irrefl _)
    · exact not_mem_of_made h rfl hmem
  · intro i hmem
    left
    simp only [newContext, List.mem_append, List.mem_cons, Option.mem_toList,
      Option.map_eq_some_iff, reduceCtorEq, and_false, exists_false, false_or] at hmem ⊢
    exact hgone i hmem

theorem kept_newAcceptor {s : Server} (h : Kept s) (hnone : s.acceptor = none) (port : Nat) :
    Kept (s.newContext.newAcceptor s.made port) := by
  have hcontext := kept_newContext h hnone
  have hlog : (s.newContext.newAcceptor s.made port).log = .acceptorMade s.made :: s.newContext.log := by
    simp [newAcceptor, newContext, hnone]
  have hopened : (s.newContext.newAcceptor s.made port).opened = some s.made := rfl
  have hunused : .acceptorGone s.made ∉ s.log := not_mem_of_made h rfl
  have hfresh : .acceptorGone s.made ∉ s.newContext.log := by simpa [newContext] using hunused
  refine ⟨?_, ?_, ?_, ?_, ?_⟩
  · rw [hlog]
    exact hcontext.outlives
  · rw [hlog]
    intro act hmem
    rcases List.mem_cons.mp hmem with rfl | hmem
    · exact Nat.lt_succ_self _
    · exact hcontext.made act hmem
  · rw [hlog]
    intro i hi
    obtain ⟨hlt, hmem⟩ := hcontext.ioc i hi
    exact ⟨hlt, by simpa using hmem⟩
  · intro i hi
    obtain rfl := Option.some.inj (hopened.symm.trans hi)
    rw [hlog]
    exact ⟨rfl, List.mem_cons_self, by simpa using hfresh⟩
  · intro i hmem
    rw [hlog] at hmem ⊢
    rcases List.mem_cons.mp hmem with heq | hmem
    · exact Or.inr (hopened.trans (congrArg some (Act.acceptorMade.inj heq).symm))
    · refine Or.inl (List.mem_cons_of_mem _ ((hcontext.gone i hmem).resolve_right ?_))
      simp [Server.opened, newContext, hnone]

theorem kept_dwProxyStop {s : Server} (h : Kept s) : Kept s.dwProxyStop := by
  have hlog : s.dwProxyStop.log = (s.ioc.map .contextGone).toList ++
      ((s.opened.map .acceptorGone).toList ++ s.log) := by
    simp [dwProxyStop, Server.opened, Function.comp_def]
  have hmem : ∀ i, .acceptorMade i ∈ s.log →
      .acceptorGone i ∈ (s.opened.map Act.acceptorGone).toList ++ s.log := by
    intro i hmade
    rcases h.gone i hmade with hgone | hopened
    · exact List.mem_append_right _ hgone
    · simp [hopened]
  have hreleased : Outlives ((s.opened.map Act.acceptorGone).toList ++ s.log) := by
    cases hopened : s.opened with
    | none => simpa using h.outlives
    | some i => exact ⟨(h.ioc i (h.opened i hopened).1).2, h.outlives⟩
  refine ⟨?_, ?_, fun i hi => absurd hi (by simp [dwProxyStop]),
    fun i hi => absurd hi (by simp [dwProxyStop, Server.opened]), ?_⟩
  · rw [hlog]
    cases hioc : s.ioc with
    | none => simpa using hreleased
    | some i =>
        refine ⟨fun hmade => hmem i ?_, hreleased⟩
        simpa using hmade
  · rw [hlog]
    intro act hact
    simp only [List.mem_append, Option.mem_toList, Option.map_eq_some_iff] at hact
    rcases hact with ⟨i, hioc, rfl⟩ | ⟨i, hopened, rfl⟩ | hact
    · exact (h.ioc i hioc).1
    · exact (h.ioc i (h.opened i hopened).1).1
    · exact h.made act hact
  · intro i hmade
    rw [hlog] at hmade ⊢
    left
    simp only [List.mem_append, Option.mem_toList, Option.map_eq_some_iff, reduceCtorEq,
      and_false, exists_false, false_or] at hmade
    exact List.mem_append_right _ (hmem i hmade)

theorem opened_accepted (s : Server) : s.accepted.opened = s.opened := by
  simp only [accepted]
  split
  · rfl
  next a ha =>
    split
    · split
      · rw [opened_doAccept]
        simp [opened, ha]
      · simp [opened, ha]
    · rfl

theorem kept_accepted {s : Server} (h : Kept s) : Kept s.accepted := by
  refine h.of_eq ?_ ?_ ?_ s.opened_accepted <;> simp only [accepted] <;> split <;> try rfl
  all_goals
    split
    · split <;> rfl
    · rfl

theorem kept_next {s : Server} {call : Call} (h : Kept s) (hok : StopsFirst s call) :
    Kept (s.next call) := by
  cases call with
  | start env =>
      have hstarted := s.started_dwProxyStart env
      simp only [next]
      generalize (s.dwProxyStart env).2 = s' at hstarted
      have hnone : s.running = false → env.context = true → s.acceptor = none := by
        intro hidle hcontext
        rcases hok with hrunning | hrefused | hnone
        · simp [hidle] at hrunning
        · simp [hcontext] at hrefused
        · exact hnone
      cases hstarted with
      | already hrunning => exact h
      | noContext hidle hcontext => exact h.of_eq rfl rfl rfl rfl
      | noPort hidle hcontext =>
          exact (kept_newContext h (hnone hidle hcontext)).of_eq rfl rfl rfl rfl
      | noThread port hidle hcontext | listening port hidle hcontext =>
          exact (kept_newAcceptor h (hnone hidle hcontext) port).of_eq rfl rfl rfl rfl
  | stop => exact kept_dwProxyStop h
  | accepted => exact kept_accepted h

theorem not_outlives_of_start {s : Server} {env : StartEnv} (h : Kept s)
    (hrefused : ¬ StopsFirst s (.start env)) : ¬ Outlives (s.next (.start env)).log := by
  simp only [StopsFirst, not_or, Bool.not_eq_true, Bool.not_eq_false] at hrefused
  obtain ⟨hidle, hcontext, hthere⟩ := hrefused
  obtain ⟨a, ha⟩ := Option.ne_none_iff_exists'.mp hthere
  obtain ⟨hioc, hmade, hopen⟩ := h.opened a.context (by simp [opened, ha])
  have hbroken : ¬ Outlives s.newContext.log := by
    simp only [newContext, hioc, Option.map_some, Option.toList_some, List.singleton_append, Outlives]
    rintro ⟨hreleased, -⟩
    exact hopen (by simpa using hreleased (List.mem_cons_of_mem _ hmade))
  have hkept : ∃ newer, (s.next (.start env)).log = newer ++ s.newContext.log := by
    have hstarted := s.started_dwProxyStart env
    simp only [next]
    generalize (s.dwProxyStart env).2 = s' at hstarted
    cases hstarted with
    | already hrunning => simp [hidle] at hrunning
    | noContext hfree hrefused => simp [hcontext] at hrefused
    | noPort => exact ⟨[], rfl⟩
    | noThread port | listening port =>
        refine ⟨(s.acceptor.map fun a => Act.acceptorGone a.context).toList ++ [.acceptorMade s.made], ?_⟩
        simp [doAccept, startFailed, newAcceptor, newContext]
  obtain ⟨newer, hlog⟩ := hkept
  rw [hlog]
  exact fun houtlives => hbroken houtlives.of_append

theorem kept_fresh : Kept {} where
  outlives := trivial
  made := fun _ hmem => absurd hmem List.not_mem_nil
  ioc := fun _ hioc => absurd hioc (by simp)
  opened := fun _ hopened => absurd hopened (by simp [Server.opened])
  gone := fun _ hmem => absurd hmem List.not_mem_nil

/-- **When contexts outlive their acceptors.** In any sequence of starts and stops, with connections
accepted in between, every context outlives the acceptor on it if and only if no start makes a context
while the acceptor of a failed start is still there: `dw_proxy_start` does not undo what it made before
the failure, so a stop has to come first. -/
theorem outlives_foldl_iff (calls : List Call) :
    Outlives (calls.foldl next {}).log ↔ Along next StopsFirst {} calls := by
  have hfrom : ∀ s : Server, Kept s →
      (Outlives (calls.foldl next s).log ↔ Along next StopsFirst s calls) := by
    induction calls with
    | nil => exact fun s h => ⟨fun _ => trivial, fun _ => h.outlives⟩
    | cons call calls ih =>
        intro s h
        rw [List.foldl_cons, Along]
        by_cases hok : StopsFirst s call
        · rw [ih (s.next call) (kept_next h hok)]
          exact ⟨fun hrest => ⟨hok, hrest⟩, fun hboth => hboth.2⟩
        · refine ⟨fun houtlives => ?_, fun hboth => absurd hboth.1 hok⟩
          cases call with
          | start env =>
              obtain ⟨newer, hlog⟩ := log_foldl (s.next (.start env)) calls
              rw [hlog] at houtlives
              exact absurd houtlives.of_append (not_outlives_of_start h hok)
          | stop | accepted => exact absurd trivial hok
  exact hfrom {} kept_fresh

/-! ### The proxy that runs listens -/

/-- The proxy that runs is the one whose port is told: its acceptor is on the context its thread runs, and
waits for one connection. A proxy that does not run has no port and no thread. -/
structure Listens (s : Server) : Prop where
  running : s.running = true → ∃ a, s.acceptor = some a ∧ s.ioc = some a.context ∧
    s.thread = some a.context ∧ s.port = a.port ∧ a.accepts = 1
  idle : s.running = false → s.port = 0 ∧ s.thread = none

theorem listens_accepted {s : Server} (h : Listens s) : Listens s.accepted := by
  simp only [accepted]
  split
  · exact h
  next a ha =>
    split
    next hready =>
      split
      next hrunning =>
        obtain ⟨a', ha', hioc, hthread, hport, haccepts⟩ := h.running hrunning
        obtain rfl := Option.some.inj (ha.symm.trans ha')
        refine ⟨fun _ => ⟨{ a with accepts := a.accepts - 1 + 1 }, rfl, hioc, hthread, hport, ?_⟩,
          fun hidle => absurd (hrunning.symm.trans hidle) (by simp)⟩
        simp [haccepts]
      next hidle =>
        exact ⟨fun hrunning => absurd hrunning hidle, h.idle⟩
    · exact h

theorem listens_next {s : Server} (h : Listens s) (call : Call) : Listens (s.next call) := by
  cases call with
  | start env =>
      have hstarted := s.started_dwProxyStart env
      simp only [next]
      generalize (s.dwProxyStart env).2 = s' at hstarted
      cases hstarted with
      | already hrunning => exact h
      | noContext hidle | noPort hidle | noThread port hidle =>
          exact ⟨fun hrunning => absurd hrunning (by simp [startFailed]),
            fun _ => ⟨rfl, (h.idle hidle).2⟩⟩
      | listening port hidle hcontext =>
          exact ⟨fun _ => ⟨⟨s.made, port, 1⟩, rfl, rfl, rfl, rfl, rfl⟩,
            fun hstopped => absurd hstopped (by simp [doAccept, newAcceptor, newContext])⟩
  | stop => exact ⟨fun hrunning => absurd hrunning (by simp [next, dwProxyStop]), fun _ => ⟨rfl, rfl⟩⟩
  | accepted => exact listens_accepted h

/-- **The port that is told is listened on.** After any sequence of starts and stops, whatever the system
granted each of them, with connections accepted in between: the proxy that runs has one accept under way
on the port it tells, and a start answers with that port or, if none runs after it, with -1. -/
theorem listens_foldl (calls : List Call) (env : StartEnv) :
    Listens (calls.foldl next {}) ∧
      let (answer, after) := (calls.foldl next {}).dwProxyStart env
      answer = if after.running then (after.port : Int) else -1 := by
  have hfrom : ∀ s : Server, Listens s → Listens (calls.foldl next s) := by
    induction calls with
    | nil => exact fun s h => h
    | cons call calls ih => exact fun s h => ih (s.next call) (listens_next h call)
  refine ⟨hfrom {} ⟨fun hrunning => absurd hrunning (by simp), fun _ => ⟨rfl, rfl⟩⟩, ?_⟩
  generalize calls.foldl next {} = s
  simp only [dwProxyStart]
  split
  · simp
  split
  · rfl
  cases env.port with
  | none => rfl
  | some port =>
      simp only
      split <;> rfl

end Server

end DownloadWrapper.Playback
