import Mathlib.Algebra.GroupWithZero.Nat
import Mathlib.Logic.Relation
import NameBinding.Command.Stats
import NameBinding.Proofs.Totals

/-!
# Reports do not depend on the schedule

Files may be analysed by several workers.  Each takes the next file from a queue,
analyses it and sends what became of it, until there is no file left; a coordinator takes
in what is sent until all workers have stopped.  Who takes which file, how long an
analysis lasts and which of the sent messages comes in next is not determined, but the
report is: it is the one of the files analysed one after the other.

The argument is an accounting of the jobs.  Each is in the queue, in the hands of a
worker, or settled, and the messages of the settled ones are under way or taken in.  A
step moves one job or one message on and loses none.

## Main definitions

* `Pool` — the queue, the workers, the messages under way and the report so far.
* `Pool.Step` — a worker or the coordinator does one thing.
* `Pool.Accounts` — every job is accounted for.

## Main results

* `Pool.Accounts.step`, `Pool.accounts_of_run` — no step loses a job.
* `Pool.Step.work_lt` — every schedule comes to an end.
* `Pool.exists_finished` — no schedule gets stuck.
* `Pool.report_eq_sequential` — **the report of any schedule that has come to its end is
  the report of the files analysed in order.**
-/

namespace NameBinding

open Command

/-- What a worker is doing. -/
inductive Worker where
  | idle
  | busy (file : String)
  | stopped
  deriving DecidableEq, Repr

/-- The file in the hands of a worker. -/
def Worker.file? : Worker → Option String
  | .busy file => some file
  | _ => none

/-- Workers with what is left to do, and a coordinator with what came of the rest. -/
structure Pool where
  queue : List String
  workers : List Worker
  /-- The messages that were sent and not yet taken in. -/
  sent : List FileResult
  report : Report

namespace Pool

/-- The beginning: some workers, all files in the queue, and nothing to report. -/
def start (workers : Nat) (jobs : List String) : Pool :=
  ⟨jobs, List.replicate workers .idle, [], {}⟩

/-- One thing that a worker or the coordinator does. -/
inductive Step (r : Registry) (files : Files) (root : String) : Pool → Pool → Prop where
  /-- A worker takes the next file. -/
  | take (file : String) (queue : List String) (before after : List Worker)
      (sent : List FileResult) (report : Report) :
      Step r files root ⟨file :: queue, before ++ .idle :: after, sent, report⟩
        ⟨queue, before ++ .busy file :: after, sent, report⟩
  /-- A worker sends what became of its file. -/
  | send (file : String) (queue : List String) (before after : List Worker)
      (sent : List FileResult) (report : Report) (message : FileResult) (log : List Output)
      (hmessage : fileMessage r files root file = .ok (message, log)) :
      Step r files root ⟨queue, before ++ .busy file :: after, sent, report⟩
        ⟨queue, before ++ .idle :: after, sent ++ [message], report⟩
  /-- A worker finds no more files. -/
  | stop (before after : List Worker) (sent : List FileResult) (report : Report) :
      Step r files root ⟨[], before ++ .idle :: after, sent, report⟩
        ⟨[], before ++ .stopped :: after, sent, report⟩
  /-- The coordinator takes in a message. -/
  | receive (queue : List String) (workers : List Worker) (before after : List FileResult)
      (message : FileResult) (report report' : Report)
      (hreport : report.absorb message = .ok report') :
      Step r files root ⟨queue, workers, before ++ message :: after, report⟩
        ⟨queue, workers, before ++ after, report'⟩

/-- The end: all workers have stopped, and no message is under way. -/
def Finished (p : Pool) : Prop := (∀ worker ∈ p.workers, worker = .stopped) ∧ p.sent = []

/-- The files in the hands of workers. -/
def inHand (workers : List Worker) : List String := workers.filterMap Worker.file?

theorem inHand_idle (before after : List Worker) :
    inHand (before ++ .idle :: after) = inHand before ++ inHand after := by
  rw [inHand, List.filterMap_append, List.filterMap_cons_none rfl, ← inHand, ← inHand]

theorem inHand_stopped (before after : List Worker) :
    inHand (before ++ .stopped :: after) = inHand before ++ inHand after := by
  rw [inHand, List.filterMap_append, List.filterMap_cons_none rfl, ← inHand, ← inHand]

theorem inHand_busy (file : String) (before after : List Worker) :
    inHand (before ++ .busy file :: after) = inHand before ++ file :: inHand after := by
  have hfile : (Worker.busy file).file? = some file := rfl
  rw [inHand, List.filterMap_append, List.filterMap_cons_some hfile, ← inHand, ← inHand]

/-! ### Messages of files -/

/-- What becomes of a file. -/
def messageOf (r : Registry) (files : Files) (root file : String) : FileResult :=
  .ofFile r files file (reportedPath root file)

/-- The file is analysed without breaking a bound. -/
def Answered (r : Registry) (files : Files) (root file : String) : Prop :=
  ∃ log, fileMessage r files root file = .ok (messageOf r files root file, log)

variable {r : Registry} {files : Files} {root file : String} {jobs : List String}

theorem eq_messageOf {message : FileResult} {log : List Output}
    (h : fileMessage r files root file = .ok (message, log)) :
    message = messageOf r files root file := by
  unfold messageOf FileResult.ofFile
  unfold fileMessage at h
  dsimp only at h
  generalize r.analyzeStored files file (reportedPath root file) = result at h ⊢
  split at h
  · cases h
  · cases hlog : unitLog (reportedPath root file) result with
    | error f => rw [hlog] at h; cases h
    | ok lines => rw [hlog] at h; cases h; rfl

theorem answered_of_eq_ok {message : FileResult} {log : List Output}
    (h : fileMessage r files root file = .ok (message, log)) : Answered r files root file :=
  ⟨log, by rw [h, ← eq_messageOf h]⟩

theorem path_messageOf : (messageOf r files root file).path = reportedPath root file := by
  unfold messageOf FileResult.ofFile
  generalize r.analyzeStored files file (reportedPath root file) = result
  match result with
  | .ok (some u) => rfl
  | .ok none => rfl
  | .error e => rfl

theorem map_path_messageOf (jobs : List String) :
    (jobs.map (messageOf r files root)).map FileResult.path = jobs.map (reportedPath root) := by
  rw [List.map_map]
  exact List.map_congr_left fun _ _ => path_messageOf

/-- **Files that are analysed in order give their messages in order.** -/
theorem run_messages : ∀ (jobs : List String) (w : World),
    (∀ file ∈ jobs, Answered r w.files root file) →
    ∃ w', (messages r root jobs).run w = (.ok (jobs.map (messageOf r w.files root)), w') := by
  intro jobs
  induction jobs with
  | nil => intro w _; exact ⟨w, rfl⟩
  | cons file rest ih =>
    intro w h
    obtain ⟨log, hlog⟩ := h file List.mem_cons_self
    obtain ⟨w', hrest⟩ := ih { w with said := w.said ++ log }
      fun f hf => h f (List.mem_cons_of_mem _ hf)
    refine ⟨w', ?_⟩
    unfold messages
    rw [Session.run_get_bind,
      Session.run_bind_ok (x := Session.ofFault _) (Session.run_ofExcept_ok hlog)]
    dsimp only
    rw [Session.run_say_bind, Session.run_bind_ok hrest]
    rfl

/-- Only files that are analysed give messages. -/
theorem answered_of_run : ∀ (jobs : List String) (w : World) (ms : List FileResult),
    ((messages r root jobs).run w).1 = .ok ms → ∀ file ∈ jobs, Answered r w.files root file := by
  intro jobs
  induction jobs with
  | nil => intro w ms _ file hfile; cases hfile
  | cons job rest ih =>
    intro w ms h
    unfold messages at h
    rw [Session.run_get_bind] at h
    cases hjob : fileMessage r w.files root job with
    | error f =>
      rw [Session.run_bind_error (x := Session.ofFault _) (Session.run_ofExcept_error hjob)] at h
      cases h
    | ok answer =>
      obtain ⟨message, log⟩ := answer
      rw [Session.run_bind_ok (x := Session.ofFault _) (Session.run_ofExcept_ok hjob)] at h
      dsimp only at h
      rw [Session.run_say_bind] at h
      intro file hfile
      rcases List.mem_cons.mp hfile with rfl | hmem
      · exact answered_of_eq_ok hjob
      · rcases hrest : (messages r root rest).run { w with said := w.said ++ log } with
          ⟨result, w'⟩
        cases result with
        | error e => rw [Session.run_bind_error hrest] at h; cases h
        | ok ms' => exact ih { w with said := w.said ++ log } ms' (by rw [hrest]) file hmem

/-! ### Accounting -/

/-- Every job is in the queue, in the hands of a worker or settled, the messages of the
settled ones are under way or taken in, and the report is about those taken in. -/
structure Accounts (r : Registry) (files : Files) (root : String) (jobs : List String)
    (p : Pool) (settled : List String) (received : List FileResult) : Prop where
  jobs : (p.queue ++ inHand p.workers ++ settled).Perm jobs
  messages : (p.sent ++ received).Perm (settled.map (messageOf r files root))
  answered : ∀ file ∈ settled, Answered r files root file
  report : p.report.Summarizes received
  queue : .stopped ∈ p.workers → p.queue = []
  workers : p.workers ≠ []

variable {p p' : Pool} {settled : List String} {received : List FileResult}

theorem accounts_start {workers : Nat} (h : 0 < workers) :
    Accounts r files root jobs (start workers jobs) [] [] where
  jobs := by
    have hidle : inHand (List.replicate workers .idle) = [] :=
      List.filterMap_eq_nil_iff.mpr fun w hw => by rw [List.eq_of_mem_replicate hw]; rfl
    simp only [start, hidle, List.append_nil]
    exact .refl _
  messages := .refl _
  answered _ hfile := nomatch hfile
  report := .empty
  queue hstopped := nomatch List.eq_of_mem_replicate hstopped
  workers := by
    intro hnil
    have hlength : workers = 0 := by simpa [start] using hnil
    omega

/-- A worker that goes on to something else is no reason for a worker to have stopped. -/
theorem stopped_mem_of_replace {before after : List Worker} {a b : Worker} (hb : b ≠ .stopped)
    (h : .stopped ∈ before ++ b :: after) : .stopped ∈ before ++ a :: after := by
  rcases List.mem_append.mp h with h | h
  · exact List.mem_append_left _ h
  · rcases List.mem_cons.mp h with h | h
    · exact absurd h.symm hb
    · exact List.mem_append_right _ (List.mem_cons_of_mem _ h)

/-- **No step loses a job.** -/
theorem Accounts.step (h : Accounts r files root jobs p settled received)
    (hstep : Step r files root p p') :
    ∃ settled' received', Accounts r files root jobs p' settled' received' := by
  cases hstep with
  | take file queue before after sent report =>
    refine ⟨settled, received, ?_, h.messages, h.answered, h.report, ?_, by simp⟩
    · refine List.Perm.trans ?_ h.jobs
      simp only [inHand_idle, inHand_busy, List.append_assoc, List.cons_append]
      rw [← List.append_assoc, ← List.append_assoc]
      exact List.perm_middle
    · intro hstopped
      have hqueue := h.queue (stopped_mem_of_replace (by simp) hstopped)
      cases hqueue
  | send file queue before after sent report message log hmessage =>
    refine ⟨file :: settled, received, ?_, ?_, ?_, h.report, ?_, by simp⟩
    · refine List.Perm.trans ?_ h.jobs
      simp only [inHand_idle, inHand_busy, List.append_assoc, List.cons_append]
      refine (List.Perm.append_left _ (List.Perm.append_left _ ?_))
      exact List.perm_middle
    · rw [List.map_cons, ← eq_messageOf hmessage]
      simp only [List.append_assoc, List.cons_append, List.nil_append]
      exact List.perm_middle.trans (h.messages.cons _)
    · intro f hf
      rcases List.mem_cons.mp hf with rfl | hf
      · exact answered_of_eq_ok hmessage
      · exact h.answered f hf
    · exact fun hstopped => h.queue (stopped_mem_of_replace (by simp) hstopped)
  | stop before after sent report =>
    refine ⟨settled, received, ?_, h.messages, h.answered, h.report, fun _ => rfl, by simp⟩
    have hjobs := h.jobs
    rwa [inHand_idle, ← inHand_stopped] at hjobs
  | receive queue workers before after message report report' hreport =>
    refine ⟨settled, message :: received, h.jobs, ?_, h.answered, h.report.absorb hreport,
      h.queue, h.workers⟩
    refine List.Perm.trans ?_ h.messages
    simp only [List.append_assoc, List.cons_append]
    exact List.Perm.append_left _ List.perm_middle

/-- **Every job is accounted for in every run.** -/
theorem accounts_of_run {workers : Nat} (hworkers : 0 < workers)
    (hrun : Relation.ReflTransGen (Step r files root) (start workers jobs) p) :
    ∃ settled received, Accounts r files root jobs p settled received := by
  induction hrun with
  | refl => exact ⟨[], [], accounts_start hworkers⟩
  | tail _ hstep ih =>
    obtain ⟨settled, received, h⟩ := ih
    exact h.step hstep

/-- In the end all jobs are settled and all their messages taken in. -/
theorem Accounts.of_finished (h : Accounts r files root jobs p settled received)
    (hdone : p.Finished) : settled.Perm jobs ∧
      p.report.Summarizes (jobs.map (messageOf r files root)) := by
  have hqueue : p.queue = [] := by
    obtain ⟨worker, hworker⟩ := List.exists_mem_of_ne_nil _ h.workers
    exact h.queue (hdone.1 worker hworker ▸ hworker)
  have hhand : inHand p.workers = [] :=
    List.filterMap_eq_nil_iff.mpr fun worker hworker => by rw [hdone.1 worker hworker]; rfl
  have hjobs := h.jobs
  rw [hqueue, hhand, List.nil_append, List.nil_append] at hjobs
  have hmessages := h.messages
  rw [hdone.2, List.nil_append] at hmessages
  exact ⟨hjobs, h.report.perm (hmessages.trans (hjobs.map _))⟩

/-- The messages still to come, those under way and those taken in are those of the jobs. -/
theorem Accounts.messages_perm (h : Accounts r files root jobs p settled received) :
    ((p.queue ++ inHand p.workers).map (messageOf r files root) ++ (p.sent ++ received)).Perm
      (jobs.map (messageOf r files root)) := by
  refine (h.messages.append_left _).trans ?_
  rw [← List.map_append]
  exact h.jobs.map _

/-! ### Every schedule comes to its end -/

/-- How much there is to do for a worker before it has stopped. -/
def load : Worker → Nat
  | .idle => 1
  | .busy _ => 3
  | .stopped => 0

/-- How much there is to do at most. -/
def work (p : Pool) : Nat := 4 * p.queue.length + (p.workers.map load).sum + p.sent.length

/-- **Every step leaves less to do**, so that every schedule comes to an end. -/
theorem Step.work_lt (h : Step r files root p p') : p'.work < p.work := by
  cases h <;> simp only [work, List.map_append, List.map_cons, List.sum_append, List.sum_cons,
    List.length_append, List.length_cons, List.length_nil, load] <;> omega

/-- As long as the end is not reached, someone can do something: a message can be taken
in, a worker can send, and if none has a file in hand then one can take a file or stop. -/
theorem Accounts.exists_step {total : Report}
    (h : Accounts r files root jobs p settled received)
    (hjobs : ∀ file ∈ jobs, Answered r files root file)
    (htotal : total.Summarizes (jobs.map (messageOf r files root))) (hdone : ¬ p.Finished) :
    ∃ p', Step r files root p p' := by
  obtain ⟨queue, workers, sent, report⟩ := p
  cases sent with
  | cons message sent =>
    have hall : ((queue ++ inHand workers).map (messageOf r files root) ++ sent ++
        message :: received).Perm (jobs.map (messageOf r files root)) := by
      refine List.Perm.trans ?_ h.messages_perm
      rw [List.append_assoc]
      exact List.Perm.append_left _ List.perm_middle
    obtain ⟨report', hreport⟩ := h.report.exists_absorb (htotal.perm hall.symm)
    exact ⟨_, .receive queue workers [] sent message report report' hreport⟩
  | nil =>
    obtain ⟨worker, hmem, hworker⟩ : ∃ worker ∈ workers, worker ≠ .stopped := by
      by_contra hall
      refine hdone ⟨fun worker hmem => ?_, rfl⟩
      by_contra hne
      exact hall ⟨worker, hmem, hne⟩
    obtain ⟨before, after, rfl⟩ := List.append_of_mem hmem
    cases worker with
    | stopped => exact absurd rfl hworker
    | busy file =>
      have hfile : file ∈ jobs := h.jobs.mem_iff.mp (by simp [inHand_busy])
      obtain ⟨log, hlog⟩ := hjobs file hfile
      exact ⟨_, .send file queue before after [] report _ log hlog⟩
    | idle =>
      cases queue with
      | nil => exact ⟨_, .stop before after [] report⟩
      | cons file queue => exact ⟨_, .take file queue before after [] report⟩

/-- **No schedule gets stuck**: if the files have a report when analysed in order, every
schedule of one or more workers can be brought to its end. -/
theorem exists_finished {w : World} {workers : Nat} {ms : List FileResult} {total : Report}
    (hworkers : 0 < workers) (hms : ((messages r root jobs).run w).1 = .ok ms)
    (htotal : Report.ofMessages ms = .ok total)
    (hrun : Relation.ReflTransGen (Step r w.files root) (start workers jobs) p) :
    ∃ p', Relation.ReflTransGen (Step r w.files root) p p' ∧ p'.Finished := by
  have hjobs := answered_of_run jobs w ms hms
  obtain ⟨w', hrun'⟩ := run_messages jobs w hjobs
  rw [hrun'] at hms
  cases hms
  obtain ⟨report, hreport⟩ := Report.summarizes_of_ofMessages htotal
  -- by induction on what there is left to do
  induction hwork : p.work using Nat.strongRecOn generalizing p with
  | ind n ih =>
    by_cases hdone : p.Finished
    · exact ⟨p, .refl, hdone⟩
    · obtain ⟨settled, received, h⟩ := accounts_of_run hworkers hrun
      obtain ⟨q, hstep⟩ := h.exists_step hjobs hreport hdone
      obtain ⟨p', hrest, hdone'⟩ := ih q.work (hwork ▸ hstep.work_lt) (hrun.tail hstep) rfl
      exact ⟨p', .head hstep hrest, hdone'⟩

/-! ### The report of a schedule -/

/-- **The report does not depend on the schedule.**  Let one or more workers analyse files
that are reported under different paths.  Whatever they do in whatever order, when all
have stopped and all messages are taken in, the files have messages when analysed one
after the other, and the report of these is the one of the coordinator with its failures
in order.  It counts every file once, as analysed or as failed. -/
theorem report_eq_sequential (r : Registry) (root : String) (jobs : List String)
    (workers : Nat) (w : World) (p : Pool) (hworkers : 0 < workers)
    (hpaths : (jobs.map (reportedPath root)).Nodup)
    (hrun : Relation.ReflTransGen (Step r w.files root) (start workers jobs) p)
    (hdone : p.Finished) :
    ∃ ms, ((messages r root jobs).run w).1 = .ok ms ∧
      Report.ofMessages ms = .ok p.report.inOrder ∧
      p.report.inOrder.files + p.report.inOrder.failures.length = jobs.length := by
  obtain ⟨settled, received, h⟩ := accounts_of_run hworkers hrun
  obtain ⟨hsettled, hreport⟩ := h.of_finished hdone
  obtain ⟨w', hmessages⟩ := run_messages jobs w
    fun file hfile => h.answered file (hsettled.mem_iff.mpr hfile)
  refine ⟨jobs.map (messageOf r w.files root), by rw [hmessages], ?_, ?_⟩
  · exact Report.ofMessages_eq_ok hreport (by rwa [map_path_messageOf])
  · have hcount := hreport.files_add_failures
    rw [List.length_map] at hcount
    rwa [Report.inOrder, List.length_mergeSort]

/-- Three files of one language, the second of which is no text. -/
def threeFiles : Files :=
  ⟨[(["src", "a.py"], .file "x".toUTF8), (["src", "b.py"], .file ⟨#[255]⟩),
    (["src", "c.py"], .file "".toUTF8)]⟩

/-- Two workers: while the first is busy with the first file, the second does the other
two, and the message about the third comes in before that about the second.  What was
found in the first file is added to what was found in the third. -/
theorem report_eq_sequential_overtaken :
    ∃ p, Relation.ReflTransGen (Step .standard threeFiles "src")
        (start 2 ["src/a.py", "src/b.py", "src/c.py"]) p ∧ p.Finished ∧
      (p.report.languages.get? "Python").map (fun t => (t.files, t.graph.scopes)) = some (2, 2) ∧
      ∃ ms, ((messages .standard "src" ["src/a.py", "src/b.py", "src/c.py"]).run
          ⟨threeFiles, .plain, []⟩).1 = .ok ms ∧
        Report.ofMessages ms = .ok p.report.inOrder ∧
        p.report.inOrder.files + p.report.inOrder.failures.length = 3 := by
  have hrun : ∃ p, Relation.ReflTransGen (Step .standard threeFiles "src")
      (start 2 ["src/a.py", "src/b.py", "src/c.py"]) p ∧ p.Finished ∧
      (p.report.languages.get? "Python").map (fun t => (t.files, t.graph.scopes)) =
        some (2, 2) := by
    refine ⟨_, .head (.take _ _ [] [.idle] _ _) <| .head (.take _ _ [.busy "src/a.py"] [] _ _) <|
      .head (.send _ _ [.busy "src/a.py"] [] _ _ _ _ rfl) <|
      .head (.take _ _ [.busy "src/a.py"] [] _ _) <|
      .head (.send _ _ [.busy "src/a.py"] [] _ _ _ _ rfl) <|
      .head (.receive _ _ [messageOf .standard threeFiles "src" "src/b.py"] [] _ _ _ rfl) <|
      .head (.send _ _ [] [.idle] _ _ _ _ rfl) <| .head (.stop [.idle] [] _ _) <|
      .head (.stop [] [.stopped] _ _) <| .head (.receive _ _ [] [_] _ _ _ rfl) <|
      .head (.receive _ _ [] [] _ _ _ rfl) .refl, ?_⟩
    exact ⟨⟨by decide, rfl⟩, by decide +kernel⟩
  obtain ⟨p, hrun, hdone, htotals⟩ := hrun
  exact ⟨p, hrun, hdone, htotals, report_eq_sequential .standard "src" _ 2
    ⟨threeFiles, .plain, []⟩ p (by decide) (by decide) hrun hdone⟩

end Pool
end NameBinding
