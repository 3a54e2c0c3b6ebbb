import OSWorkspace.Ext4BlockCacheTransparency
import OSWorkspace.Ext4ExtentTreeRewriting
import OSWorkspace.Ext4FileReading
import OSWorkspace.Ext4ExtentMaps
import OSWorkspace.Ext4Files
import OSWorkspace.Ext4InodeTables
import OSWorkspace.Ext4OwnedBlocks
import OSWorkspace.Ext4FileWriting
import OSWorkspace.Ext4FileContents
import OSWorkspace.Ext4Directories
import OSWorkspace.Ext4Mounting
import OSWorkspace.ShellScripts
import OSWorkspace.ShellPrograms
import OSWorkspace.BitmapWords
import OSWorkspace.EasyFsVolumes
import OSWorkspace.EasyFsAllocation
import OSWorkspace.EasyFsBlockCache
import OSWorkspace.EasyFsInodes
import OSWorkspace.EasyFsBlockMaps
import OSWorkspace.EasyFsBlockAccounting
import OSWorkspace.Ext4FailedGrowth
import OSWorkspace.Ext4FailedWrites
import OSWorkspace.Ext4DirectoryLookups
import OSWorkspace.Ext4ModeRepairs
import OSWorkspace.Ext4DirectoryInsertions
import OSWorkspace.Ext4FailedCreates
import OSWorkspace.Ext4EntryAllocations
import OSWorkspace.Ext4DirectoryBlocks
import OSWorkspace.Ext4DirectoryRemovals
import OSWorkspace.Ext4Renames
import OSWorkspace.Ext4Unlinking
import OSWorkspace.Ext4LegacyReading
import OSWorkspace.Ext4Symlinks
import OSWorkspace.Ext4BlockCacheExhaustion
import OSWorkspace.Ext4FarWrites
import OSWorkspace.Ext4LegacyWriting
import OSWorkspace.Ext4MalformedDirectories
import OSWorkspace.ShellCommands
import OSWorkspace.ShellStatements
import OSWorkspace.ShellFunctions
import OSWorkspace.ShellPipelines
import OSWorkspace.EasyFsFiles
import OSWorkspace.EasyFsFreeBlocks
import OSWorkspace.Ext4ExtentInsertions
import OSWorkspace.Ext4BulkReading
import OSWorkspace.Ext4ExtentTraversals
import OSWorkspace.Ext4BlockCacheRecency
import OSWorkspace.Ext4GrowableFiles
import OSWorkspace.Ext4WellFormedDirectories
import OSWorkspace.Ext4ReclaimedFiles
import OSWorkspace.EasyFsFileContents
import OSWorkspace.EasyFsInodeStores
import OSWorkspace.EasyFsDirectories
import OSWorkspace.EasyFsFileRuns
import OSWorkspace.EasyFsGrowableFiles
import OSWorkspace.EasyFsLookups
import OSWorkspace.EasyFsReopening
import OSWorkspace.EasyFsEmptyWrites
import OSWorkspace.EasyFsImages
import OSWorkspace.ShellScriptFiles
import OSWorkspace.NameSpaces
import OSWorkspace.Ext4SparedInodes
import OSWorkspace.Ext4SparedDirectories
import OSWorkspace.Ext4Paths
import OSWorkspace.Ext4NewEntries
import OSWorkspace.Ext4NameChanges
import OSWorkspace.Ext4NewDirectories
import OSWorkspace.Ext4Trees
import OSWorkspace.Ext4TreePaths
import OSWorkspace.Ext4TreeChanges
import OSWorkspace.Ext4NewLeaves
import OSWorkspace.Ext4TreeCalls
import OSWorkspace.Ext4TreeRemovals
import OSWorkspace.Ext4TreeLeaves
import OSWorkspace.Ext4Sessions
import OSWorkspace.Ext4ConsistentVolumes
