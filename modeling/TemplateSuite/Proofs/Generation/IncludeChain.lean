import Mathlib
import TemplateSuite.Proofs.Generation.Alike
import TemplateSuite.Proofs.Generation.OpenTemplates

/-!
The chain of includes. Processing where each template hands the templates that lead to it down to
the files it includes, and never looks at the open templates, does the same.
-/

namespace TemplateSuite

namespace Processing

open StateAction

variable {exact : Prop} {left right : List Text} {setup : Setup}

end Processing

open StateAction Processing

/-- A template to be processed: a file, or a text that is no file. -/
inductive Request where
  | file (path : Text)
  | text (content : Text)

namespace Request

def process (setup : Setup) : Request → Processing Unit
  | file path => processFile setup path
  | text content => processText setup content

/-- What is left after processing templates one after the other, whether they fail or not. -/
def serve (setup : Setup) (requests : List Request) (p : Progress) : Progress :=
  requests.foldl (fun q request => (request.process setup q).2) p

variable {setup : Setup}

theorem process_closesAgain (request : Request) (p : Progress) :
    ClosesAgain p (request.process setup p).2 := by
  cases request with
  | file path => exact ClosesAgain.of_holds ((ClosesAgain.admits setup).processFile path) p
  | text content => exact ClosesAgain.of_holds ((ClosesAgain.admits setup).processText content) p

end Request

end TemplateSuite
