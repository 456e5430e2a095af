import ControlPlane.Lib.Text
import ControlPlane.Lib.Value

/-! # Context items

What a retriever returns: a text with its source, score and metadata, and the evidence the control
plane has made of it. -/

namespace ControlPlane.Retrieval.Items

open ControlPlane.Lib.Value ControlPlane.Lib.Text

structure EvidenceEnvelope (F : Type) where
  evidenceId : String
  repositoryId : String
  contentSha256 : String
  provenance : Dict F
  confidence : String

structure ContextItem (F : Type) where
  source : String
  text : String
  score : F
  stale : Bool
  metadata : Dict F
  provenance : Dict F
  evidence : Option (EvidenceEnvelope F)

/-- How far an item from a source is trusted. -/
def trustClassForSource (source : String) : String :=
  if startsWith source "external:" then "untrusted_external_provider"
  else if source = "durable_memory" then "untrusted_durable_memory"
  else if source = "hot_cache" ∨ source = "research_cache" ∨ source = "domain_manifest" then
    "untrusted_generated_context"
  else if source = "lightweight_index" ∨ source = "targeted_source" ∨ source = "code_review_graph" ∨
      source = "scip" ∨ source = "semantic" ∨ source = "test_resolver" then
    "untrusted_repository_content"
  else "untrusted_context_data"

end ControlPlane.Retrieval.Items
