import Mathlib.Init

/-!
# Connections between nodes
-/

namespace N8n

inductive NodeConnectionType where
  | aiAgent
  | aiChain
  | aiDocument
  | aiEmbedding
  | aiLanguageModel
  | aiMemory
  | aiOutputParser
  | aiRetriever
  | aiReranker
  | aiTextSplitter
  | aiTool
  | aiVectorStore
  | main
  deriving DecidableEq, Repr

def NodeConnectionType.text : NodeConnectionType → String
  | .aiAgent => "ai_agent"
  | .aiChain => "ai_chain"
  | .aiDocument => "ai_document"
  | .aiEmbedding => "ai_embedding"
  | .aiLanguageModel => "ai_languageModel"
  | .aiMemory => "ai_memory"
  | .aiOutputParser => "ai_outputParser"
  | .aiRetriever => "ai_retriever"
  | .aiReranker => "ai_reranker"
  | .aiTextSplitter => "ai_textSplitter"
  | .aiTool => "ai_tool"
  | .aiVectorStore => "ai_vectorStore"
  | .main => "main"

/-- The end of a connection: the node, and the type and index of the input there. -/
structure Connection where
  node : String
  type : NodeConnectionType
  index : Nat
  deriving DecidableEq, Repr

end N8n
