import Canon.KeccakSponge

/-!
# Typed-data digests

The contracts sign and recover over `keccak256(0x1901 ‖ domain ‖ struct)`.  The
verifying contract and the deployment id are declared as `bytes` in the type
texts, so their hashes stand in the preimages.  Recovery itself is a library of
its own and appears as a parameter.
-/

namespace Canon

/-- A static value of `abi.encode`: one 32-byte word. -/
def abiWord (value : ℕ) : Bytes := beBytes 32 value

def abiAddress (address : Address) : Bytes := abiWord address.toNat

/-- Recovery of the signer from a digest and a signature; `none` when the
library reverts. -/
abbrev Recover := Bytes32 → Bytes → Option Address

namespace Eip712

def domainTypeString : String :=
  "EIP712Domain(string name,string version,uint256 chainId," ++
    "uint256 rollupId,bytes verifyingContract)"

def canonActionTypeString : String :=
  "CanonAction(bytes32 actionHash,uint64 signer,uint64 nonce," ++
    "bytes deploymentId)"

def canonMigrationTypeString : String :=
  "CanonMigration(bytes32 predecessorDeploymentId," ++
    "bytes32 successorDeploymentId,bytes32 migrationStateRoot," ++
    "uint64 migrationStateRootLogIdx,uint256 graceWindowBlocks)"

/-- `keccak256(bytes(text))`, a word of a preimage. -/
def textHash (text : String) : Bytes := (keccak256 (asciiBytes text)).toBytes

def domainSeparator (name version : String) (chainId rollupId : ℕ)
    (verifyingContract : Address) : Bytes32 :=
  keccak256 (textHash domainTypeString ++ textHash name ++
    textHash version ++ abiWord chainId ++ abiWord rollupId ++
    (keccak256 (beBytes 20 verifyingContract.toNat)).toBytes)

def actionStructHash (actionHash : Bytes32) (signer nonce : UInt64)
    (deploymentId : Bytes32) : Bytes32 :=
  keccak256 (textHash canonActionTypeString ++ actionHash.toBytes ++
    abiWord signer.toNat ++ abiWord nonce.toNat ++ (keccak256 deploymentId.toBytes).toBytes)

def migrationStructHash (predecessorDeploymentId successorDeploymentId
    migrationStateRoot : Bytes32) (migrationStateRootLogIdx : UInt64)
    (graceWindowBlocks : ℕ) : Bytes32 := keccak256 (textHash canonMigrationTypeString ++
    predecessorDeploymentId.toBytes ++ successorDeploymentId.toBytes ++
    migrationStateRoot.toBytes ++ abiWord migrationStateRootLogIdx.toNat ++
    abiWord graceWindowBlocks)

def digest (domainSeparator structHash : Bytes32) : Bytes32 :=
  keccak256 ([0x19, 0x01] ++ domainSeparator.toBytes ++ structHash.toBytes)

end Eip712
end Canon
