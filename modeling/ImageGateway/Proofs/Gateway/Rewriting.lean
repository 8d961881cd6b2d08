import Mathlib
import ImageGateway.Proofs.Archive.Rewriting
import ImageGateway.Proofs.Gateway.Histories

/-!
# A ledger that is written as it is

Writing a ledger anew changes its bytes at most once, never its records, and the gateway answers with
the same records before and after (`rewritten_ledger`).
-/

set_option autoImplicit false

namespace ImageGateway

open Storage Storage.FileTree
open Http (Request)

variable {c : Config} {p : Project} {t s : FileTree} {r : Request} {records : List Record}
  {content : Bytes} {α : Type}

/-- The answer to a request for a history lists the records of the project. -/
theorem handle_getHistory (x : Circumstances) (hpath : Destination.ofPath r.path = .getHistory)
    (hmethod : r.method = "GET" ∨ r.method = "POST") (hproject : projectOf r.headers = .ok p) :
    (c.handle x r t).response.status = 200 ∧
      (c.handle x r t).response.body = Record.compactList (c.archive.history p t) ∧
      (c.handle x r t).tree = t := by
  have answered : c.route x r t
      = ⟨.json 200 (Record.compactList (c.archive.history p t)), [], t⟩ := by
    have run := respond_getHistory c.archive t hproject
    rcases hmethod with method | method
    all_goals
      simp [Config.route, hpath, Destination.methods, method, Config.dispatch, Config.answered, run]
  have notOptions : r.method ≠ "OPTIONS" := by
    rcases hmethod with method | method <;> simp [method]
  rw [Config.handle, if_neg notOptions, answered]
  exact ⟨c.status_withOrigins _, c.body_withOrigins _, rfl⟩

/-- Writing a ledger as it is, whatever form it had, makes it the document of its records: these are
read again, a second time changes no byte, and the gateway answers with the same records. -/
theorem rewritten_ledger {change : List Record → Disk (Archive.Commit α)} {x : α} (hs : t.IsSound)
    (hfile : t.statLink (c.archive.ledgerPath p) = .ok (.file content))
    (hread : Record.ofDocument? content = some records)
    (hnumbers : ∀ r ∈ records, ∀ n ∈ (Json.Value.object r.taskData).numbers, n.isWord = true)
    (hapart : c.archive.IsApart p t) (hchange : Archive.LeavesAsIs change records)
    (hrun : c.archive.update p change t = .ok x s) :
    s.readFile (c.archive.ledgerPath p) = .ok (Record.document records) ∧
      c.archive.load p s = .present records ∧
      (∀ (β : Type) (again : List Record → Disk (Archive.Commit β)) (y : β) (u : FileTree),
        Archive.LeavesAsIs again records → c.archive.update p again s = .ok y u →
          u.readFile (c.archive.ledgerPath p) = .ok (Record.document records)) ∧
      ∀ (x : Circumstances) (r : Request), Destination.ofPath r.path = .getHistory →
        r.method = "GET" ∨ r.method = "POST" → projectOf r.headers = .ok p →
          (c.handle x r s).response.body = (c.handle x r t).response.body ∧
            Record.listOfJson? (c.handle x r s).response.body = some records := by
  obtain ⟨written, sound, plain⟩ :=
    Archive.readFile_of_rewritten hs hfile hread hapart hchange hrun
  obtain ⟨lasting, loaded⟩ := Archive.load_of_rewritten hfile hread hnumbers written
  refine ⟨written, loaded, fun β again y u hagain hrun' => ?_, fun x r hpath hmethod hproject => ?_⟩
  · exact Archive.readFile_of_rewritten_again sound plain loaded hagain hrun'
  · obtain ⟨-, before, -⟩ := handle_getHistory (c := c) (t := t) x hpath hmethod hproject
    obtain ⟨-, after, -⟩ := handle_getHistory (c := c) (t := s) x hpath hmethod hproject
    have history : c.archive.history p t = records := by
      rw [Archive.history, Archive.load_of_statLink hfile hread]
      rfl
    have history' : c.archive.history p s = records := by
      rw [Archive.history, loaded]
      rfl
    rw [before, after, history, history', Record.listOfJson?_compactList,
      Json.mapM_eq_some_self lasting]
    exact ⟨rfl, rfl⟩

/-! ## A ledger in other forms -/

/-- A ledger with a record in the form of an array, and one with the other name of its image, an
unknown key and only what must be given. -/
def mixedLedger : Bytes :=
  Bytes.ofString "[[\"a.png\", \x7b\"n\": 1\x7d, 3, 2, null], \x7b\"ID\": 1, \"x\": [], \"imageURL\": \"b.png\"\x7d]"

/-- The records of this ledger. -/
def mixedRecords : List Record :=
  [⟨"a.png", [("n", .number (.integer 1))], 3, 2, none⟩, ⟨"b.png", [], 0, 1, none⟩]

theorem ofDocument?_mixedLedger : Record.ofDocument? mixedLedger = some mixedRecords := by cbv

/-- A results directory with nothing but a ledger. -/
def storedResults (ledger : Bytes) : FileTree where
  entries := [(["results"], .directory), (["results", "history.json"], .file ledger)]
  workingDirectory := []

theorem isSound_storedResults (ledger : Bytes) : (storedResults ledger).IsSound := by
  refine isSound_of_entries (fun e listed => ?_) rfl
  simp only [storedResults, List.mem_cons, List.not_mem_nil, or_false] at listed
  rcases listed with rfl | rfl <;> rfl

theorem writeBack_storedResults {ledger : Bytes} {records : List Record}
    (hread : Record.ofDocument? ledger = some records) :
    ∃ s, localGateway.archive.writeBack .global (storedResults ledger) = .ok () s := by
  have found : (storedResults ledger).statLink (localGateway.archive.ledgerPath .global)
      = .ok (.file ledger) := rfl
  have loaded := Archive.load_of_statLink found hread
  have steps : ∀ document,
      (storedResults ledger).makeDirs (localGateway.archive.projectDir .global)
        = (.ok (), storedResults ledger) ∧
      (storedResults ledger).writeFile (localGateway.archive.temporaryPath .global) document
        = .ok ((storedResults ledger).insert ["results", "history.json.tmp"] (.file document)) ∧
      ((storedResults ledger).insert ["results", "history.json.tmp"] (.file document)).rename
          (localGateway.archive.temporaryPath .global) (localGateway.archive.ledgerPath .global)
        = .ok ((((storedResults ledger).insert ["results", "history.json.tmp"]
          (.file document)).erase ["results", "history.json.tmp"]).insert
            ["results", "history.json"] (.file document)) :=
    fun _ => ⟨rfl, rfl, rfl⟩
  obtain ⟨made, written, renamed⟩ := steps (Record.document records)
  refine ⟨_, Archive.update_of_persist ?_ ?_ (Archive.persist_of_steps made written renamed)⟩
  · rw [loaded]
    rfl
  · rw [loaded]
    rfl

theorem rewritten_ledger_mixed :
    (storedResults mixedLedger).IsSound ∧
      (storedResults mixedLedger).statLink (localGateway.archive.ledgerPath .global)
        = .ok (.file mixedLedger) ∧
      Record.ofDocument? mixedLedger = some mixedRecords ∧
      localGateway.archive.IsApart .global (storedResults mixedLedger) ∧
      ∃ s, localGateway.archive.writeBack .global (storedResults mixedLedger) = .ok () s ∧
        s.readFile (localGateway.archive.ledgerPath .global)
          = .ok (Record.document mixedRecords) ∧
        localGateway.archive.load .global s = .present mixedRecords := by
  have numbers : ∀ r ∈ mixedRecords, ∀ n ∈ (Json.Value.object r.taskData).numbers,
      n.isWord = true := by
    intro r hr
    simp only [mixedRecords, List.mem_cons, List.not_mem_nil, or_false] at hr
    rcases hr with rfl | rfl
    · decide
    · exact fun n hn => absurd hn List.not_mem_nil
  have apart : localGateway.archive.IsApart .global (storedResults mixedLedger) := by
    have temporary : ∀ ledger, (storedResults ledger).locate true
        (localGateway.archive.temporaryPath .global) = .ok ["results", "history.json.tmp"] :=
      fun _ => rfl
    have there : ∀ ledger, (storedResults ledger).locate false
        (localGateway.archive.ledgerPath .global) = .ok ["results", "history.json"] :=
      fun _ => rfl
    rw [Archive.IsApart, temporary, there]
    decide
  have found : ∀ ledger, (storedResults ledger).statLink (localGateway.archive.ledgerPath .global)
      = .ok (.file ledger) := fun _ => rfl
  obtain ⟨s, run⟩ := writeBack_storedResults ofDocument?_mixedLedger
  obtain ⟨written, loaded, -, -⟩ := rewritten_ledger (isSound_storedResults _) (found _)
    ofDocument?_mixedLedger numbers apart (fun _ => ⟨(), rfl⟩) run
  exact ⟨isSound_storedResults _, found _, ofDocument?_mixedLedger, apart, s, run, written, loaded⟩

end ImageGateway
