/-
  File:      Irez/Contract.lean
  Subject:   The constants of contract.h and the errors of error.h.
-/
import Irez.Record

namespace Irez

/-! ## 1. contract.h -/

def kAnalysisSchemaVersion : Int := 2

def kAdapterId : String := "llvm-ir"

def kAdapterVersionString : String := "2"

/-- The capability set a fresh materialization completes: name and precision. -/
def kMaterializationCapabilities : List (String × String) :=
  [("entity_index", "exact"), ("operand_graph", "exact"), ("cfg", "exact"),
    ("control_dependence", "exact"), ("source_mapping", "partial"), ("direct_calls", "exact")]

theorem kMaterializationCapabilities_names_nodup :
    (kMaterializationCapabilities.map (·.1)).Nodup := by decide

/-! ## 2. error.h -/

/-- `IrezError`: message, exit code and error kind. -/
structure IrezError where
  message : String
  exitCode : Int := 5
  errorKind : String := "state_error"
  deriving DecidableEq, Repr

def notFound (message : String) : IrezError := ⟨message, 3, "not_found"⟩

def adapterFailure (message : String) : IrezError := ⟨message, 4, "adapter_failure"⟩

def unsupported (message : String) : IrezError := ⟨message, 6, "unsupported"⟩

def busy (message : String) : IrezError := ⟨message, 7, "analysis_in_progress"⟩

/-- What a service call throws: an `IrezError`, or a foreign `std::exception`. -/
inductive Thrown where
  | irez (e : IrezError)
  | std (what : String)
  deriving DecidableEq, Repr

/-- `exc.what()`. -/
def Thrown.what : Thrown → String
  | .irez e => e.message
  | .std w => w

/-- The text `exec` and `query_all` throw for a failed statement (db.cpp). -/
def sqliteError (message : String) : Thrown := .irez ⟨"sqlite error: " ++ message, 5, "state_error"⟩

end Irez
