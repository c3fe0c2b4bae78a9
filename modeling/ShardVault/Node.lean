import ShardVault.Chunk.Directory
import ShardVault.Chunk.Service
import ShardVault.Reconstruct
import ShardVault.Settings
import ShardVault.Split.Service

/-!
A node: chunks and documents in directories, and a registry of the files split since the node was
opened.  What a node keeps it keeps in files, so another node can be opened on the same
directories.
-/

namespace ShardVault

/-- An open node. -/
structure Node where
  splitter : Splitter
  service : ChunkService
  chunks : ChunkDirectory
  registry : Registry

namespace Node

/-- Opens a node with these settings; `writer` tells its temporary files from those of others. -/
def ofSettings (writer : UInt32) (settings : Settings) : Except (Stop NodeError) Node :=
  match settings.fault? with
  | some fault => .error (.refused (.config fault))
  | none =>
    if ChunkService.maxPermits < settings.maxConcurrent then .error .crash
    else
      match Splitter.new settings.stripeSize settings.redundancy
          ⟨Path.ofText settings.metadataPath⟩ with
      | .error e => .error (.refused (.storage e))
      | .ok splitter =>
        .ok ⟨splitter, ⟨settings.maxConcurrent, settings.timeout⟩,
          ⟨Path.ofText settings.storagePath, writer, 0⟩, .empty⟩

/-- The storage of a node. -/
def storage (node : Node) (files : FileTree) : Storage ChunkDirectory :=
  ⟨node.chunks, files⟩

/-- The node's own way to its chunks. -/
def client (node : Node) : ChunkClient ChunkDirectory :=
  node.service.client .none

/-- How the node rebuilds files. -/
def reconstructor (node : Node) : Reconstructor :=
  ⟨node.splitter.scheme, node.splitter.documents⟩

/-- How the node splits files. -/
def splitService (node : Node) : SplitService ChunkDirectory :=
  ⟨node.splitter, node.client⟩

/-- Splits a content and stores it. -/
def split (node : Node) (files : FileTree) (now : Instant) (content : Bytes) :
    Except (Stop NodeError) SplitReport × Node × FileTree :=
  let (result, storage, registry) :=
    node.splitService.split now (node.storage files) node.registry ⟨content⟩
  (result.mapError (Stop.map .service), { node with chunks := storage.chunks, registry },
    storage.files)

/-- Splits a content and tells in words how it went. -/
def splitInWords (node : Node) (files : FileTree) (now : Instant) (request : SplitFileRequest) :
    Option SplitFileResponse × Node × FileTree :=
  let (response, storage, registry) :=
    node.splitService.splitFile now (node.storage files) node.registry request
  (response, { node with chunks := storage.chunks, registry }, storage.files)

/-- Rebuilds a file. -/
def reconstruct (node : Node) (files : FileTree) (fileHash : String) :
    Except (Stop NodeError) Bytes :=
  (node.reconstructor.reconstruct node.client (node.storage files) fileHash).mapError
    (Stop.map .storage)

/-- Answers a call to store a chunk. -/
def storeChunk (node : Node) (files : FileTree) (request : StoreChunkRequest) :
    Except ServiceError StoreChunkResponse × Node × FileTree :=
  let (result, storage) := ChunkService.storeChunk (node.storage files) request
  (result, { node with chunks := storage.chunks }, storage.files)

/-- Answers a call to fetch a chunk. -/
def getChunk (node : Node) (files : FileTree) (request : GetChunkRequest) :
    Except ServiceError GetChunkResponse :=
  ChunkService.getChunk (node.storage files) request

end Node

end ShardVault
