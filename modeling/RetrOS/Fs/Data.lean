import RetrOS.Fs.Fat16

/-!
# FAT16: reading and writing along a chain (`fs/fat16_read.c`, `fs/fat16_write.c`)

* `readDataFromCluster`, `readData` : the reader. It skips `offset / 512` clusters and reads block after block;
  the result is the return value and the bytes stored in the buffer;
* `findClusterByOffset` : where the writer starts. It stays in the cluster before while the offset is not
  beyond its end, so the offset in the cluster may be 512;
* `writeDataToClusterWithOffset`, `writeData` : the writer, `none` where the length of a `memcpy` is negative.

`fat16_print_cluster_chain` prints nothing and is left out. Loops take the number of rounds they may make:
`offset` and `data.length` are enough, a round moves at least one byte (`writeLoop` makes one round more, the
first may write no byte).
-/

namespace RetrOS.Fs
open RetrOS.Lib

namespace Fat16

/-! ## Reading -/

/-- The block of a cluster, as the reader computes it in 16 bits. -/
def readBlockNum (fs : Fat16) (cluster : Nat) : Nat := fs.directoryBlock cluster % 2 ^ 16

/-- `fat16_read_data_from_cluster`: the bytes copied, none if they would exceed the cluster. -/
def readDataFromCluster (fs : Fat16) (cluster dataLength offset : Nat) : List UInt8 :=
  if offset + dataLength > 512 then []
  else fs.readBlockOffset dataLength offset (fs.readBlockNum cluster)

/-- The loop that skips the clusters before the offset. -/
def skipClusters (fs : Fat16) : Nat → Nat → Nat
  | 0, currentCluster => currentCluster
  | clustersSkipped + 1, currentCluster =>
    if currentCluster = 0xFFFF then currentCluster
    else fs.skipClusters clustersSkipped (fs.getFatEntry currentCluster).toNat

/-- The loop that copies the clusters: what is left to read and the bytes copied. -/
def readLoop (fs : Fat16) : Nat → Nat → Nat → Nat → Nat × List UInt8
  | 0, _, bytesLeft, _ => (bytesLeft, [])
  | fuel + 1, currentCluster, bytesLeft, offsetWithin =>
    if bytesLeft = 0 ∨ currentCluster = 0xFFFF then (bytesLeft, [])
    else
      let bytesToRead := if bytesLeft > 512 - offsetWithin then 512 - offsetWithin else bytesLeft
      let copied := fs.readDataFromCluster currentCluster bytesToRead offsetWithin
      let rest := fs.readLoop fuel (fs.getFatEntry currentCluster).toNat (bytesLeft - bytesToRead) 0
      (rest.1, copied ++ rest.2)

def readData (fs : Fat16) (firstCluster startOffset bufferLength maxLength : Nat) : Int × List UInt8 :=
  if startOffset > maxLength then (-1, [])
  else
    let bytesLeft :=
      if (startOffset + bufferLength) % 2 ^ 32 > maxLength then maxLength - startOffset else bufferLength
    let currentCluster := fs.skipClusters (startOffset / 512) firstCluster
    let r := fs.readLoop bytesLeft currentCluster bytesLeft (startOffset % 512)
    if 0 < r.1 then (-3, r.2) else (bytesLeft, r.2)

/-! ## Writing -/

/-- The loop of `fat16_find_cluster_by_offset`: the cluster and the bytes passed over. -/
def findLoop (fs : Fat16) (offset : Nat) : Nat → Nat → Nat → Nat × Nat
  | 0, currentCluster, traversed => (currentCluster, traversed)
  | fuel + 1, currentCluster, traversed =>
    if currentCluster < 0xFFF8 ∧ currentCluster ≠ 0xFFFF ∧ traversed + 512 < offset then
      fs.findLoop offset fuel (fs.getFatEntry currentCluster).toNat (traversed + 512)
    else (currentCluster, traversed)

/-- The cluster and the offset in it. -/
def findClusterByOffset (fs : Fat16) (firstCluster offset : Nat) : Nat × Nat :=
  let r := fs.findLoop offset offset firstCluster 0
  (r.1, offset - r.2)

def writeDataToClusterWithOffset (fs : Fat16) (cluster offset : Nat) (data : List UInt8) : Fat16 :=
  fs.writeBlockOffset data offset (fs.directoryBlock cluster)

/-- The cluster to write next, a new one behind the end of the chain; or the error of the loop. -/
def nextToWrite (fs : Fat16) (currentCluster nextCluster : Nat) : Except Int Nat × Fat16 :=
  if nextCluster = 0xFFFF ∨ nextCluster ≥ 0xFFF8 then
    let (freeCluster, fs) := fs.getFreeCluster
    if freeCluster = 0xFFFF then (.error (-1), fs)
    else if currentCluster > 0 then
      (.ok freeCluster, fs.setFatEntry currentCluster (BitVec.ofNat 16 freeCluster))
    else (.error (-2), fs)
  else (.ok nextCluster, fs)

/-- The loop of `fat16_write_data`: the last cluster written. -/
def writeLoop : Nat → Fat16 → Nat → Nat → List UInt8 → Nat → Option (Except Int Nat × Fat16)
  | 0, _, _, _, _, _ => none
  | fuel + 1, fs, currentCluster, nextCluster, data, clusterOffset =>
    if data = [] then some (.ok currentCluster, fs)
    else
      match fs.nextToWrite currentCluster nextCluster with
      | (.error e, fs) => some (.error e, fs)
      | (.ok currentCluster, fs) =>
        if clusterOffset > 512 then none
        else
          let writeSize := min (512 - clusterOffset) data.length
          let fs := fs.writeDataToClusterWithOffset currentCluster clusterOffset (data.take writeSize)
          writeLoop fuel fs currentCluster (fs.getFatEntry currentCluster).toNat (data.drop writeSize) 0

/-- `fat16_write_data`: the return value and the state after it. -/
def writeData (fs : Fat16) (firstCluster offset : Nat) (data : List UInt8) : Option (Int × Fat16) :=
  if data = [] then some (-1, fs)
  else
    let start := fs.findClusterByOffset firstCluster offset
    (writeLoop (data.length + 2) fs start.1 start.1 data start.2).map fun r =>
      match r with
      | (.error e, fs) => (e, fs)
      | (.ok currentCluster, fs) =>
        let fs := if fs.getFatEntry currentCluster ≠ 0xFFFF then fs.setFatEntry currentCluster 0xFFFF else fs
        ((data.length : Int), fs.syncFatTable)

end Fat16
end RetrOS.Fs
