import Aevrix.Server.Responses
import Aevrix.Static.FileServer

/-!
# The filesystem worker (`filesystem_worker.cpp`)
-/

namespace Aevrix.Static
open Aevrix.Filesystem
open Aevrix.Server (WorkerTask WorkerResult)

/-- The file system as a task finds it, and the text of the exception if one is thrown that
has a text. -/
structure Disk where
  tree : Tree
  readable : List Name → Bool
  what : Option Bytes

/-- What `serve_file` of a server made for the task returns; `none` is an exception. -/
def Disk.serve (disk : Disk) (task : WorkerTask) : Option (Bytes × Bytes × ℕ) :=
  (StaticFileServer.construct disk.tree task.documentRoot).bind fun server =>
    server.serveFile disk.readable task.requestTarget

/-- The texts for a status other than 200 (`filesystem_worker.cpp:47-54`). -/
def statusMessage (statusCode : ℕ) : Bytes :=
  if statusCode = 404 then ascii "File not found"
  else if statusCode = 403 then ascii "Forbidden"
  else ascii "Internal server error"

/-- `execute_filesystem_task` (`filesystem_worker.cpp:26-70`). -/
def executeFilesystemTask (disk : Disk) (task : WorkerTask) : WorkerResult :=
  match disk.serve task with
  | none =>
    ⟨task.connectionId, [], [], 500, match disk.what with
      | some what => ascii "Internal server error: " ++ what
      | none => ascii "Internal server error", false⟩
  | some (content, mimeType, statusCode) =>
    let content := if task.isHeadRequest && statusCode == 200 then [] else content
    if statusCode = 200 then ⟨task.connectionId, content, mimeType, statusCode, [], true⟩
    else ⟨task.connectionId, [], [], statusCode, statusMessage statusCode, false⟩

/-- The file is there and can be read. -/
def Disk.Serves (disk : Disk) (task : WorkerTask) : Prop :=
  ∃ content mimeType, disk.serve task = some (content, mimeType, 200)

/-- A worker served the file without its content, or has an error to report. -/
theorem executeFilesystemTask_cases (disk : Disk) (task : WorkerTask)
    (hhead : task.isHeadRequest = true) :
    (disk.Serves task ∧ (executeFilesystemTask disk task).statusCode = 200 ∧
      (executeFilesystemTask disk task).content = []) ∨
    (¬disk.Serves task ∧ (executeFilesystemTask disk task).statusCode ≠ 200 ∧
      (executeFilesystemTask disk task).errorMessage ≠ []) := by
  unfold executeFilesystemTask Disk.Serves
  cases disk.serve task with
  | none =>
    refine Or.inr ⟨fun ⟨_, _, h⟩ => (by cases h), ?_, ?_⟩
    · show (500 : ℤ) ≠ 200
      decide
    · cases disk.what with
      | none =>
        show ascii "Internal server error" ≠ []
        decide
      | some what =>
        show ascii "Internal server error: " ++ what ≠ []
        simp [ascii]
  | some served =>
    obtain ⟨content, mimeType, statusCode⟩ := served
    by_cases hcode : statusCode = 200
    · subst hcode
      simp only [hhead, if_true]
      exact Or.inl ⟨⟨content, mimeType, rfl⟩, rfl, rfl⟩
    · simp only [if_neg hcode]
      refine Or.inr ⟨fun ⟨_, _, h⟩ => hcode ?_, (by omega), ?_⟩
      · rw [Option.some.injEq, Prod.mk.injEq, Prod.mk.injEq] at h
        exact h.2.2
      · unfold statusMessage
        split
        · decide
        split
        · decide
        · decide

/-- A file that a worker reads for anything but HEAD has something in it. -/
theorem executeFilesystemTask_content {disk : Disk} {task : WorkerTask}
    (hhead : task.isHeadRequest = false) (hcode : (executeFilesystemTask disk task).statusCode = 200) :
    (executeFilesystemTask disk task).content ≠ [] := by
  unfold executeFilesystemTask at hcode ⊢
  cases hserved : disk.serve task with
  | none =>
    rw [hserved] at hcode
    cases hcode
  | some served =>
    obtain ⟨content, mimeType, statusCode⟩ := served
    rw [hserved] at hcode
    simp only [hhead, Bool.false_and, Bool.false_eq_true, if_false] at hcode ⊢
    by_cases h200 : statusCode = 200
    · subst h200
      simp only [if_true]
      obtain ⟨server, -, hserve⟩ := Option.bind_eq_some_iff.mp hserved
      exact StaticFileServer.serveFile_content hserve
    · simp only [if_neg h200] at hcode
      exact (h200 (Int.ofNat.inj hcode)).elim

end Aevrix.Static
